import Xahau.Hook.Filed

/-! # Destroying a namespace (`SetHook.cpp`)

`destroyNamespace` deletes the hook states of a namespace by walking over its directory. With
`fixNSDelete` one call deletes at most 256 of them and leaves the others for the next. -/

namespace Xahau

open Directory List

variable {node : DirNode} {dir : Directory} {toDelete : List UInt256} {page : Nat}

/-- `dirIsEmpty`: the first page may be empty when there are other pages. -/
def Directory.dirIsEmpty (dir : Directory) : Bool :=
  match dir 0 with
  | none => true
  | some node => decide (node.indexes = [] ∧ node.indexNext = 0)

theorem Directory.Linked.dirIsEmpty_iff (h : dir.Linked) :
    dir.dirIsEmpty = true ↔ dir 0 = none := by
  unfold dirIsEmpty
  cases hroot : dir 0 with
  | none => exact iff_of_true rfl rfl
  | some node =>
    refine iff_of_false ?_ nofun
    intro hemp
    have hemp := of_decide_eq_true hemp
    exact h.rootNonempty hroot hemp.1 hemp.2

namespace Hook

open Checked

/-- `hook::maxNamespaceDelete`. -/
def maxNamespaceDelete : Nat := 256

/-- What the walk over the directory has found. -/
inductive Marking : Type where
  /-- A key without an entry in the ledger. -/
  | missing
  /-- The keys to delete, and there are more. -/
  | stopped (toDelete : List UInt256)
  /-- The keys to delete, which are all. -/
  | all (toDelete : List UInt256)

/-- The loop that marks entries for deletion, over the keys of one page. -/
def markEntries (view : View) (acc : AccountID) (ns : UInt256) (limited : Bool) :
    List UInt256 → List UInt256 → Marking
  | [], toDelete => .all toDelete
  | dirEntry :: entries, toDelete =>
    if limited ∧ maxNamespaceDelete ≤ toDelete.length then .stopped toDelete
    else if view.hookState acc dirEntry ns = none then .missing
    else markEntries view acc ns limited entries (toDelete ++ [dirEntry])

/-- The same loop over the pages (`cdirFirst`, `cdirNext`). It gives up after a number of pages. -/
def markPages (view : View) (acc : AccountID) (ns : UInt256) (limited : Bool) :
    Nat → DirNode → List UInt256 → Option Marking
  | 0, _, _ => none
  | pages + 1, node, toDelete =>
    match markEntries view acc ns limited node.indexes toDelete with
    | .all toDelete =>
      if node.indexNext = 0 then some (.all toDelete)
      else
        match view.hookStateDir acc ns node.indexNext with
        | none => some (.all toDelete)
        | some next => markPages view acc ns limited pages next toDelete
    | .stopped toDelete => some (.stopped toDelete)
    | .missing => some .missing

/-- The loop that deletes the marked entries: whether the directory had them all. -/
def deleteEntries (acc : AccountID) (ns : UInt256) : List UInt256 → View → Except String (Bool × View)
  | [], view => .ok (true, view)
  | itemKey :: toDelete, view =>
    match view.hookState acc itemKey ns with
    | none => deleteEntries acc ns toDelete view
    | some sleItem => do
      let (found, dir) ← (view.hookStateDir acc ns).dirRemove sleItem.ownerNode itemKey false
      if found = false then .ok (false, view)
      else
        deleteEntries acc ns toDelete
          ((view.setHookStateDir acc ns dir).setHookStateEntry acc itemKey ns none)

section

variable (view : View) (acc : AccountID) (sleAccount : AccountRoot) (ns : UInt256)

/-- The account root after `count` states were deleted, if it had so many. -/
def destroyedAccount (count : Nat) (partialDelete : Bool) : Option AccountRoot :=
  let oldStateCount := sleAccount.stateCount
  let stateCount := (oldStateCount + (0x100000000 - count % 0x100000000)) % 0x100000000
  if oldStateCount < stateCount then none
  else
    let hookStateCount := if stateCount = 0 then none else some stateCount
    let ownerCount :=
      if view.rules.enabled .fixNSDelete then confineOwnerCount sleAccount.ownerCount (-count)
      else sleAccount.ownerCount
    let sleAccount := { sleAccount with hookStateCount, ownerCount }
    some (if partialDelete then sleAccount else removeHookNamespaceEntry sleAccount ns)

/-- The part of `SetHook::destroyNamespace` that deletes what was marked. -/
def destroyMarked (toDelete : List UInt256) (partialDelete : Bool) :
    Except String (Ter × View) := do
  let (found, view) ← deleteEntries acc ns toDelete view
  if found = false then .ok (.tefBAD_LEDGER, view)
  else
    match destroyedAccount view sleAccount ns toDelete.length partialDelete with
    | none => .ok (.tefBAD_LEDGER, view)
    | some sleAccount =>
      .ok (if partialDelete then .tesPARTIAL else .tesSUCCESS, view.setAccount acc sleAccount)

end

/-- `SetHook::destroyNamespace`, for at most the given number of pages. -/
def destroyNamespace (pages : Nat) (view : View) (acc : AccountID) (ns : UInt256) :
    Except String (Ter × View) :=
  match view.account acc with
  | none => .ok (.tefBAD_LEDGER, view)
  | some sleAccount =>
    let dir := view.hookStateDir acc ns
    if dir.dirIsEmpty then
      -- the directory does not exist or is empty: this is a success condition
      .ok (.tesSUCCESS, (view.setHookStateDir acc ns (dir.erase 0)).setAccount acc
        (removeHookNamespaceEntry sleAccount ns))
    else
      match dir 0 with
      | none => .ok (.tefINTERNAL, view)
      | some root =>
        match markPages view acc ns (view.rules.enabled .fixNSDelete) pages root [] with
        | none => .error "the directory has more pages"
        | some .missing => .ok (.tefBAD_LEDGER, view)
        | some (.stopped toDelete) => destroyMarked view acc sleAccount ns toDelete true
        | some (.all toDelete) =>
          if toDelete = [] then .ok (.tefINTERNAL, view)
          else destroyMarked view acc sleAccount ns toDelete false

section

variable {view : View} {acc : AccountID} {ns : UInt256} {limited : Bool}

/-! ## The walk -/

/-- **What a page contributes**: its keys, some of them at the limit, or a key without a state. -/
theorem markEntries_cases (view : View) (acc : AccountID) (ns : UInt256) (limited : Bool)
    (entries toDelete : List UInt256) :
    (∃ key ∈ entries, view.hookState acc key ns = none) ∨
    (∃ marked key rest, entries = marked ++ key :: rest ∧
      markEntries view acc ns limited entries toDelete = .stopped (toDelete ++ marked)) ∨
    markEntries view acc ns limited entries toDelete = .all (toDelete ++ entries) := by
  induction entries generalizing toDelete with
  | nil => exact .inr (.inr (by rw [append_nil]; rfl))
  | cons key entries ih =>
    unfold markEntries
    split
    · exact .inr (.inl ⟨[], key, entries, rfl, by rw [append_nil]⟩)
    split
    next hn =>
      exact .inl ⟨key, mem_cons_self, hn⟩
    rcases ih (toDelete ++ [key]) with ⟨key', hkey', hn⟩ |
      ⟨marked, key', rest, rfl, heq⟩ | heq
    · exact .inl ⟨key', mem_cons_of_mem _ hkey', hn⟩
    · refine .inr (.inl ⟨key :: marked, key', rest, rfl, ?_⟩)
      rw [heq, append_assoc, singleton_append]
    · refine .inr (.inr ?_)
      rw [heq, append_assoc, singleton_append]

/-- What the walk over a well-linked directory has marked. -/
def Marking.Sound (dir : Directory) : Marking → Prop
  | .missing => False
  | .stopped toDelete => toDelete.Nodup ∧ (∀ key ∈ toDelete, ∃ page, dir.Holds page key) ∧
      ∃ page key, key ∉ toDelete ∧ dir.Holds page key
  | .all toDelete => toDelete.Nodup ∧ ∀ key, key ∈ toDelete ↔ ∃ page, dir.Holds page key

/-- The keys on the pages before a given one. -/
def MarkedBefore (dir : Directory) (page : Nat) (toDelete : List UInt256) : Prop :=
  toDelete.Nodup ∧ ∀ key, key ∈ toDelete ↔ ∃ page' < page, dir.Holds page' key

theorem MarkedBefore.append
    (hlin : dir.Linked) (hnode : dir page = some node) (h : MarkedBefore dir page toDelete) :
    (toDelete ++ node.indexes).Nodup ∧
      ∀ key, key ∈ toDelete ++ node.indexes ↔ ∃ page' ≤ page, dir.Holds page' key := by
  constructor
  · refine nodup_append.mpr ⟨h.1, hlin.nodup hnode, ?_⟩
    rintro key hkey _ hkey' rfl
    obtain ⟨page', hlt, hh⟩ := (h.2 key).mp hkey
    exact absurd (hlin.once hh ⟨node, hnode, hkey'⟩) hlt.ne
  intro key
  rw [mem_append, h.2]
  constructor
  · rintro (⟨page', hlt, hh⟩ | hkey)
    · exact ⟨page', hlt.le, hh⟩
    · exact ⟨page, le_rfl, node, hnode, hkey⟩
  rintro ⟨page', hle, hh⟩
  rcases hle.lt_or_eq with hlt | rfl
  · exact .inl ⟨page', hlt, hh⟩
  obtain ⟨node', hnode', hkey⟩ := hh
  rw [hnode] at hnode'
  cases hnode'
  exact .inr hkey

theorem mem_pages_of_holds {key : UInt256} (h : dir.Holds page key) : page ∈ dir.pages := by
  obtain ⟨node, hnode, -⟩ := h
  exact mem_pages hnode

section

variable (h : Filed view) {pages : Nat} {marking : Marking}
  (hnode : view.hookStateDir acc ns page = some node)

include h hnode

/-- **The walk marks what the directory holds.** -/
theorem sound_of_markPages (hbef : MarkedBefore (view.hookStateDir acc ns) page toDelete)
    (hmark : markPages view acc ns limited pages node toDelete = some marking) :
    marking.Sound (view.hookStateDir acc ns) := by
  have hlin := h.linked acc ns
  induction pages generalizing page node toDelete with
  | zero => cases hmark
  | succ pages ih =>
    obtain ⟨hnd, hmem⟩ := hbef.append hlin hnode
    unfold markPages at hmark
    rcases markEntries_cases view acc ns limited node.indexes toDelete with
      ⟨key, hkey, hn⟩ | ⟨marked, key, rest, hspl, heq⟩ | heq
    · -- every key of the directory has a state
      exact absurd ⟨node, hnode, hkey⟩ (h.not_holds hn)
    · rw [heq] at hmark
      cases hmark
      rw [hspl, ← append_assoc] at hnd
      refine ⟨hnd.of_append_left, ?_, page, key, ?_, ?_⟩
      · intro key' hkey'
        have hin : key' ∈ toDelete ++ node.indexes := by
          rw [hspl, ← append_assoc]
          exact mem_append_left _ hkey'
        obtain ⟨page', -, hh⟩ := (hmem key').mp hin
        exact ⟨page', hh⟩
      · intro hin
        exact disjoint_of_nodup_append hnd hin mem_cons_self
      · exact ⟨node, hnode, by rw [hspl]; simp⟩
    · rw [heq] at hmark
      dsimp only at hmark
      have hnext := hlin.next hnode
      split at hmark
      · -- the last page
        rename_i hlast
        cases hmark
        rw [hlast] at hnext
        refine ⟨hnd, fun key => ?_⟩
        rw [hmem]
        constructor
        · rintro ⟨page', -, hh⟩
          exact ⟨page', hh⟩
        · rintro ⟨page', hh⟩
          exact ⟨page', hnext.le_of_zero page' (mem_pages_of_holds hh), hh⟩
      next hne =>
        obtain ⟨next, hnex⟩ := exists_of_mem_pages hnext.right
        rw [hnex] at hmark
        refine ih hnex ⟨hnd, fun key => ?_⟩ hmark
        rw [hmem]
        -- no page lies between this one and the next
        constructor
        · rintro ⟨page', hle, hh⟩
          exact ⟨page', lt_of_le_of_lt hle (hnext.lt_of_ne_zero hne), hh⟩
        rintro ⟨page', hlt, hh⟩
        refine ⟨page', ?_, hh⟩
        rcases hnext.gap with ⟨-, hgap⟩ | ⟨hzero, -⟩
        · have := hgap page' (mem_pages_of_holds hh)
          omega
        · exact absurd hzero hne

theorem markPages_ne_none (hpag : (view.hookStateDir acc ns).lastPage < page + pages) :
    markPages view acc ns limited pages node toDelete ≠ none := by
  have hlin := h.linked acc ns
  induction pages generalizing page node toDelete with
  | zero =>
    have := hlin.le_lastPage (mem_pages hnode)
    omega
  | succ pages ih =>
    unfold markPages
    split
    · split
      · exact nofun
      next hne =>
        have hnext := hlin.next hnode
        obtain ⟨next, hnex⟩ := exists_of_mem_pages hnext.right
        rw [hnex]
        refine ih hnex ?_
        have := hnext.lt_of_ne_zero hne
        omega
    · exact nofun
    · exact nofun

end

theorem View.setHookStateDir_erase (hroot : view.hookStateDir acc ns 0 = none) :
    view.setHookStateDir acc ns ((view.hookStateDir acc ns).erase 0) = view := by
  have hera : (view.hookStateDir acc ns).erase 0 = view.hookStateDir acc ns := by
    unfold erase
    rw [← hroot]
    exact Function.update_eq_self 0 (view.hookStateDir acc ns)
  rw [hera]
  unfold View.setHookStateDir
  congr 1
  funext acc' ns'
  split
  next heq =>
    cases heq
    rfl
  · rfl

/-! ## The deletion -/

/-- **Deleting distinct states** of a consistent ledger leaves the other states. -/
theorem Filed.deleteEntries_eq {view : View} (h : Filed view)
    (hnd : toDelete.Nodup) (hsta : ∀ key ∈ toDelete, view.hookState acc key ns ≠ none) :
    ∃ view', deleteEntries acc ns toDelete view = .ok (true, view') ∧ Filed view' ∧
      view'.account = view.account ∧ view'.rules = view.rules ∧
      ∀ acc' key' ns', view'.hookState acc' key' ns' =
        if acc' = acc ∧ ns' = ns ∧ key' ∈ toDelete then none else view.hookState acc' key' ns' := by
  induction toDelete generalizing view with
  | nil => exact ⟨view, rfl, h, rfl, rfl, by simp⟩
  | cons key toDelete ih =>
    obtain ⟨hkey, hnd⟩ := nodup_cons.mp hnd
    obtain ⟨sleItem, hitem⟩ := Option.ne_none_iff_exists'.mp (hsta key mem_cons_self)
    obtain ⟨dir, hrem, hlin, -⟩ := (h.linked acc ns).dirRemove (h.holds hitem)
    have hfil := h.remove hitem hrem hlin
    unfold deleteEntries
    rw [hitem]
    dsimp only
    rw [hrem, ok_bind]
    rw [if_neg Bool.false_ne_true.symm]
    obtain ⟨view', heq, hfil', hacc, hrul, hst⟩ := ih hfil hnd (by
      intro key' hkey'
      rw [View.hookState_setHookStateEntry, if_neg]
      · exact hsta key' (mem_cons_of_mem _ hkey')
      rintro heq
      cases heq
      exact hkey hkey')
    refine ⟨view', heq, hfil', hacc, hrul, ?_⟩
    intro acc' key' ns'
    rw [hst, View.hookState_setHookStateEntry]
    split
    next hlat =>
      rw [if_pos ⟨hlat.1, hlat.2.1, mem_cons_of_mem _ hlat.2.2⟩]
    rename_i hlat
    by_cases hnow : (acc', key', ns') = (acc, key, ns)
    · cases hnow
      rw [if_pos rfl, if_pos ⟨rfl, rfl, mem_cons_self⟩]
    rw [if_neg hnow, if_neg]
    · rfl
    rintro ⟨rfl, rfl, hmem⟩
    rcases mem_cons.mp hmem with rfl | hmem
    · exact hnow rfl
    · exact hlat ⟨rfl, rfl, hmem⟩

end

end Hook

end Xahau
