import Xahau.Basics.BaseUInt
import Xahau.Data.Checked

/-! # Directories (`ApplyView.cpp`)

A directory is a list of pages that link to each other by number, from the root on and back. A page
holds at most 32 keys. A key is removed from the page that is named by whoever inserted it, so a
directory must keep its keys where it put them. -/

namespace Xahau

/-- A page of a directory. -/
structure DirNode where
  /-- `sfIndexes`. -/
  indexes : List UInt256
  /-- `sfIndexNext`. -/
  indexNext : Nat
  /-- `sfIndexPrevious`. -/
  indexPrevious : Nat
  deriving DecidableEq

/-- The pages of a directory by number; page zero is the root. -/
abbrev Directory := Nat → Option DirNode

namespace Directory

open Checked
open Function (update_of_ne update_self)

/-- The directory without pages. -/
def empty : Directory := fun _ => none

/-- `dirNodeMaxEntries`. -/
def dirNodeMaxEntries : Nat := 32

/-- `dirNodeMaxPages`. -/
def dirNodeMaxPages : Nat := 262144

section

variable (capped preserveOrder : Bool) (dir : Directory)

/-- The page that `peek` finds. A missing one is a `LogicError`. -/
def peek (page : Nat) (message : String) : Except String DirNode :=
  match dir page with
  | some node => .ok node
  | none => .error message

/-- The directory with a page replaced. -/
def update (page : Nat) (node : DirNode) : Directory :=
  Function.update dir page (some node)

/-- The directory without a page. -/
def erase (page : Nat) : Directory := Function.update dir page none

/-- A key inserted in a page: at the end, or in order after sorting. -/
def insertKey (indexes : List UInt256) (key : UInt256) : List UInt256 :=
  if preserveOrder then indexes ++ [key]
  else (indexes.mergeSort fun a b => decide (a.data ≤ b.data)).orderedInsert
    (fun a b => a.data ≤ b.data) key

/-- The part of `ApplyView::dirAdd` that puts the key on a new page, linked first after the last
one, which can be the root. -/
def appendPage (page newPage : Nat) (node : DirNode) (key : UInt256) :
    Except String Directory := do
  let dir := dir.update page { node with indexNext := newPage }
  let root ← dir.peek 0 "ApplyStateTable::update: missing key"
  let dir := dir.update 0 { root with indexPrevious := newPage }
  failIf (dir newPage ≠ none) "ApplyStateTable::insert: already cached"
  .ok (dir.update newPage ⟨[key], 0, if newPage ≠ 1 then newPage - 1 else 0⟩)

/-- `ApplyView::dirAdd`: the page of the key, unless there are no more pages (when `capped`). -/
def dirAdd (key : UInt256) : Except String (Option (Nat × Directory)) :=
  match dir 0 with
  | none => .ok (some (0, dir.update 0 ⟨[key], 0, 0⟩))
  | some root => do
    let page := root.indexPrevious
    let node ← dir.peek page "Directory chain: root back-pointer broken."
    if node.indexes.length < dirNodeMaxEntries then
      -- if there is space, use it
      failIf (key ∈ node.indexes) "dirInsert: double insertion"
      .ok (some (page,
        dir.update page { node with indexes := insertKey preserveOrder node.indexes key }))
    else
      let newPage := (page + 1) % 0x10000000000000000
      if dirNodeMaxPages ≤ newPage ∧ capped then .ok none
      else do
        let dir ← dir.appendPage page newPage node key
        .ok (some (newPage, dir))

/-- The part of `ApplyView::dirRemove` for a root page that has become empty. -/
def removeFromRoot (keepRoot : Bool) : Except String (Bool × Directory) := do
  let node ← dir.peek 0 "ApplyStateTable::update: missing key"
  failIf (node.indexNext = 0 ∧ node.indexPrevious ≠ 0) "Directory chain: fwd link broken"
  failIf (node.indexPrevious = 0 ∧ node.indexNext ≠ 0) "Directory chain: rev link broken"
  if node.indexNext = node.indexPrevious ∧ node.indexNext ≠ 0 then
    let last ← dir.peek node.indexNext "Directory chain: fwd link broken."
    if last.indexes = [] then
      -- older versions of the code would allow the last page to be empty
      let dir := (dir.update 0 { node with indexNext := 0, indexPrevious := 0 }).erase
        node.indexNext
      .ok (true, if keepRoot then dir else dir.erase 0)
    else .ok (true, dir)
  else if keepRoot = false ∧ node.indexNext = 0 ∧ node.indexPrevious = 0 then
    .ok (true, dir.erase 0)
  else .ok (true, dir)

/-- The part of `ApplyView::dirRemove` that drops the page after an unlinked one. -/
def dropLast (prevPage nextPage : Nat) : Except String Directory := do
  let dir := dir.erase nextPage
  let prev ← dir.peek prevPage "ApplyStateTable::update: erased"
  let dir := dir.update prevPage { prev with indexNext := 0 }
  let root ← dir.peek 0 "Directory chain: root link broken."
  .ok (dir.update 0 { root with indexPrevious := prevPage })

section

variable (page : Nat) (key : UInt256)

/-- The part of `ApplyView::dirRemove` for another page that has become empty. -/
def unlinkPage (node : DirNode) (keepRoot : Bool) :
    Except String (Bool × Directory) := do
  let prevPage := node.indexPrevious
  let nextPage := node.indexNext
  failIf (nextPage = page) "Directory chain: fwd link broken"
  failIf (prevPage = page) "Directory chain: rev link broken"
  let prev ← dir.peek prevPage "Directory chain: fwd link broken."
  let dir := dir.update prevPage { prev with indexNext := nextPage }
  let next ← dir.peek nextPage "Directory chain: rev link broken."
  let dir := (dir.update nextPage { next with indexPrevious := prevPage }).erase page
  -- an empty last page goes with the page before it
  let dropsNext := decide (nextPage ≠ 0 ∧ next.indexNext = 0 ∧ next.indexes = [])
  let dir ← (if dropsNext then dir.dropLast prevPage nextPage else .ok dir : Except String Directory)
  .ok (true,
    if keepRoot = false ∧ (dropsNext = true ∨ nextPage = 0) ∧ prevPage = 0 ∧ prev.indexes = [] then
      dir.erase prevPage
    else dir)

/-- `ApplyView::dirRemove`: whether the key was found on the page and removed. -/
def dirRemove (keepRoot : Bool) : Except String (Bool × Directory) :=
  match dir page with
  | none => .ok (false, dir)
  | some node =>
    if key ∈ node.indexes then
      let node := { node with indexes := node.indexes.erase key }
      let dir := dir.update page node
      if node.indexes ≠ [] then .ok (true, dir)
      else if page = 0 then dir.removeFromRoot keepRoot
      else dir.unlinkPage page node keepRoot
    else .ok (false, dir)

/-- `ApplyView::emptyDirDelete`: whether the root was empty, even if it stays because of other
pages. -/
def emptyDirDelete : Except String (Bool × Directory) :=
  match dir 0 with
  | none => .ok (false, dir)
  | some node =>
    if node.indexes ≠ [] then .ok (false, dir)
    else do
      failIf (node.indexNext = 0 ∧ node.indexPrevious ≠ 0) "Directory chain: fwd link broken"
      failIf (node.indexPrevious = 0 ∧ node.indexNext ≠ 0) "Directory chain: rev link broken"
      if node.indexNext = node.indexPrevious ∧ node.indexNext ≠ 0 then
        let last ← dir.peek node.indexNext "Directory chain: fwd link broken."
        if last.indexes ≠ [] then .ok (false, dir)
        else
          .ok (true, ((dir.update 0 { node with indexNext := 0, indexPrevious := 0 }).erase
            node.indexNext).erase 0)
      else if node.indexNext = 0 ∧ node.indexPrevious = 0 then .ok (true, dir.erase 0)
      else .ok (true, dir)

/-! ## What a directory holds -/

/-- The keys on a page, none if there is no such page. -/
def keys : List UInt256 := (dir page).elim [] DirNode.indexes

/-- The key is on the page. -/
def Holds : Prop :=
  ∃ node, dir page = some node ∧ key ∈ node.indexes

end

end

section

variable {dir dir' : Directory} {page page' : Nat} {node : DirNode} {key key' : UInt256}

theorem keys_eq (h : dir page = some node) : dir.keys page = node.indexes := by
  unfold keys
  rw [h]
  rfl

theorem holds_iff_mem_keys : dir.Holds page key ↔ key ∈ dir.keys page := by
  unfold Holds keys
  cases dir page <;> simp

@[simp] theorem not_holds_empty : ¬ empty.Holds page key := by
  rintro ⟨node, hnode, -⟩
  cases hnode

theorem peek_eq_ok {message : String} (h : dir.peek page message = .ok node) :
    dir page = some node := by
  unfold peek at h
  split at h
  · cases h
    assumption
  · cases h

theorem keys_update : (dir.update page node).keys = Function.update dir.keys page node.indexes := by
  funext page'
  unfold keys update
  by_cases hpage : page' = page
  · subst hpage
    rw [update_self, update_self]
    rfl
  · rw [update_of_ne hpage, update_of_ne hpage]

theorem keys_update_links (h : dir page = some node) {indexNext indexPrevious : Nat} :
    (dir.update page ⟨node.indexes, indexNext, indexPrevious⟩).keys = dir.keys := by
  rw [keys_update, ← keys_eq h, Function.update_eq_self]

theorem keys_erase (h : dir.keys page = []) : (dir.erase page).keys = dir.keys := by
  funext page'
  by_cases hpage : page' = page
  · subst hpage
    rw [h]
    unfold keys erase
    rw [update_self]
    rfl
  · unfold keys erase
    rw [update_of_ne hpage]

theorem insertKey_perm (preserveOrder : Bool) (indexes : List UInt256) (key : UInt256) :
    (insertKey preserveOrder indexes key).Perm (key :: indexes) := by
  unfold insertKey
  split
  · exact List.perm_append_singleton key indexes
  · exact (List.perm_orderedInsert _ _ _).trans ((List.mergeSort_perm _ _).cons key)

theorem eq_none_of_update (h : dir.update page node page' = none) : dir page' = none := by
  unfold update at h
  by_cases hpage : page' = page
  · subst hpage
    rw [update_self] at h
    cases h
  · rwa [update_of_ne hpage] at h

theorem keys_appendPage {newPage : Nat} (hnode : dir page = some node)
    (h : dir.appendPage page newPage node key = .ok dir') :
    dir newPage = none ∧ dir'.keys = Function.update dir.keys newPage [key] := by
  unfold appendPage at h
  simp only [bind_eq_ok, failIf_eq_ok, not_not] at h
  obtain ⟨root, hroot, -, hfree, h⟩ := h
  cases h
  refine ⟨eq_none_of_update (eq_none_of_update hfree), ?_⟩
  rw [keys_update, keys_update_links (peek_eq_ok hroot), keys_update_links hnode]

variable {capped found keepRoot preserveOrder : Bool}

section

variable (h : dir.dirAdd capped preserveOrder key = .ok (some (page, dir')))

include h

/-- **What `dirAdd` does**: the page returned gets the key, the others keep theirs. -/
theorem keys_dirAdd :
    ∃ indexes, indexes.Perm (key :: dir.keys page) ∧
      dir'.keys = Function.update dir.keys page indexes := by
  unfold dirAdd at h
  split at h
  · -- the directory is new
    rename_i hroot
    cases h
    refine ⟨[key], ?_, keys_update⟩
    unfold keys
    rw [hroot]
    exact List.Perm.refl _
  next root hroot =>
    obtain ⟨node, hnode, h⟩ := bind_eq_ok.mp h
    have hnode := peek_eq_ok hnode
    dsimp only at h
    split at h
    · -- there is space on the last page
      replace h := of_check h
      cases h
      refine ⟨_, ?_, keys_update⟩
      rw [keys_eq hnode]
      exact insertKey_perm preserveOrder node.indexes key
    · split at h
      · cases h
      · obtain ⟨dir'', happ, h⟩ := bind_eq_ok.mp h
        cases h
        obtain ⟨hnew, hkeys⟩ := keys_appendPage hnode happ
        refine ⟨[key], ?_, hkeys⟩
        unfold keys
        rw [hnew]
        exact List.Perm.refl _

theorem holds_dirAdd :
    dir'.Holds page' key' ↔ (page' = page ∧ key' = key) ∨ dir.Holds page' key' := by
  obtain ⟨indexes, hperm, hkeys⟩ := keys_dirAdd h
  rw [holds_iff_mem_keys, holds_iff_mem_keys, hkeys]
  by_cases hpage : page' = page
  · subst hpage
    rw [update_self, hperm.mem_iff, List.mem_cons]
    simp
  · rw [update_of_ne hpage]
    simp [hpage]

end

theorem keys_removeFromRoot (hemp : dir.keys 0 = [])
    (h : dir.removeFromRoot keepRoot = .ok (found, dir')) :
    found = true ∧ dir'.keys = dir.keys := by
  unfold removeFromRoot at h
  simp only [bind_eq_ok, failIf_eq_ok] at h
  obtain ⟨root, hroot, -, -, -, -, h⟩ := h
  have hroot := peek_eq_ok hroot
  split at h
  · obtain ⟨last, hlast, h⟩ := bind_eq_ok.mp h
    have hlast := peek_eq_ok hlast
    split at h
    next hlas =>
      cases h
      -- the empty last page goes, and then the root
      have hdrop : ((dir.update 0 { root with indexNext := 0, indexPrevious := 0 }).erase
          root.indexNext).keys = dir.keys := by
        rw [keys_erase, keys_update_links hroot]
        rw [keys_update_links hroot, keys_eq hlast, hlas]
      refine ⟨rfl, ?_⟩
      split
      · exact hdrop
      · rw [keys_erase, hdrop]
        rw [hdrop, hemp]
    · cases h
      exact ⟨rfl, rfl⟩
  · split at h
    · cases h
      exact ⟨rfl, keys_erase hemp⟩
    · cases h
      exact ⟨rfl, rfl⟩

theorem keys_dropLast {prevPage nextPage : Nat} (hemp : dir.keys nextPage = [])
    (h : dir.dropLast prevPage nextPage = .ok dir') : dir'.keys = dir.keys := by
  unfold dropLast at h
  simp only [bind_eq_ok] at h
  obtain ⟨prev, hprev, root, hroot, h⟩ := h
  cases h
  rw [keys_update_links (peek_eq_ok hroot), keys_update_links (peek_eq_ok hprev), keys_erase hemp]

theorem keys_unlinkPage (hemp : dir.keys page = [])
    (h : dir.unlinkPage page node keepRoot = .ok (found, dir')) :
    found = true ∧ dir'.keys = dir.keys := by
  unfold unlinkPage at h
  simp only [bind_eq_ok, failIf_eq_ok] at h
  obtain ⟨-, -, -, -, prev, hprev, next, hnext, dir₃, hdrop, h⟩ := h
  have hprev := peek_eq_ok hprev
  have hnext := peek_eq_ok hnext
  have hlin : ((dir.update node.indexPrevious
      { prev with indexNext := node.indexNext }).update node.indexNext
      { next with indexPrevious := node.indexPrevious }).keys = dir.keys := by
    rw [keys_update_links hnext, keys_update_links hprev]
  have hunl : (((dir.update node.indexPrevious
      { prev with indexNext := node.indexNext }).update node.indexNext
      { next with indexPrevious := node.indexPrevious }).erase page).keys = dir.keys := by
    rw [keys_erase, hlin]
    rw [hlin, hemp]
  have hthi : dir₃.keys = dir.keys := by
    split at hdrop
    next hdro =>
      rw [keys_dropLast _ hdrop, hunl]
      rw [hunl, ← keys_update_links hprev, keys_eq hnext, (of_decide_eq_true hdro).2.2]
    · cases hdrop
      exact hunl
  cases h
  refine ⟨rfl, ?_⟩
  split
  next hroot =>
    rw [keys_erase, hthi]
    rw [hthi, keys_eq hprev, hroot.2.2.2]
  · exact hthi

/-- **What `dirRemove` does**: the key goes from its page, or was not there; the others keep theirs.
-/
theorem keys_dirRemove (h : dir.dirRemove page key keepRoot = .ok (found, dir')) :
    (found = false ∧ dir' = dir ∧ ¬ dir.Holds page key) ∨
      (found = true ∧ dir.Holds page key ∧
        dir'.keys = Function.update dir.keys page ((dir.keys page).erase key)) := by
  unfold dirRemove at h
  split at h
  next hn =>
    cases h
    exact .inl ⟨rfl, rfl, by simp [Holds, hn]⟩
  rename_i node hnode
  rw [holds_iff_mem_keys, keys_eq hnode]
  split at h
  next hkey =>
    dsimp only at h
    split at h
    · cases h
      exact .inr ⟨rfl, hkey, keys_update⟩
    rename_i hemp
    have hemp : (dir.update page { node with indexes := node.indexes.erase key }).keys page
        = [] := by
      rw [keys_update, update_self]
      exact not_not.mp hemp
    split at h
    next hroot =>
      subst hroot
      obtain ⟨rfl, hkeys⟩ := keys_removeFromRoot hemp h
      exact .inr ⟨rfl, hkey, hkeys.trans keys_update⟩
    · obtain ⟨rfl, hkeys⟩ := keys_unlinkPage hemp h
      exact .inr ⟨rfl, hkey, hkeys.trans keys_update⟩
  next hkey =>
    cases h
    exact .inl ⟨rfl, rfl, hkey⟩

theorem holds_dirRemove (h : dir.dirRemove page key keepRoot = .ok (found, dir')) :
    (found = true ↔ dir.Holds page key) ∧
      ∀ page' key', (page', key') ≠ (page, key) →
        (dir'.Holds page' key' ↔ dir.Holds page' key') := by
  rcases keys_dirRemove h with ⟨rfl, rfl, hmis⟩ | ⟨rfl, hkey, hkeys⟩
  · exact ⟨iff_of_false Bool.false_ne_true hmis, fun _ _ _ => Iff.rfl⟩
  refine ⟨iff_of_true rfl hkey, fun page' key' hne => ?_⟩
  rw [holds_iff_mem_keys, holds_iff_mem_keys, hkeys]
  by_cases hpage : page' = page
  · subst hpage
    have hkey' : key' ≠ key := by
      rintro rfl
      exact hne rfl
    rw [update_self, List.mem_erase_of_ne hkey']
  · rw [update_of_ne hpage]

end

end Directory

end Xahau
