import Xahau.Data.Run
import Xahau.Ledger.Linked

/-! # Histories of a directory

A caller puts a key in, is told the page, and takes the key out of that page later. Whatever was put
in and taken out, the pages are chained, each has the keys that were put on it and not taken out,
and no call finds a broken link. A caller must not put a key on the last page that is already there.
-/

namespace Xahau.Directory

open BaseUInt Function List

/-- The pages in the order of their links, from the root and back. -/
structure Lists (dir : Directory) (ps : List ℕ) : Prop where
  /-- The page numbers increase. -/
  sorted : ps.SortedLT
  mem_iff : ∀ page, page ∈ ps ↔ dir page ≠ none
  /-- Each page names the next one, and is named by it. -/
  links : ps.IsChain fun page page' => (dir page).map DirNode.indexNext = some page' ∧
    (dir page').map DirNode.indexPrevious = some page
  /-- The root is the first page. -/
  head : ps.head? = (dir 0).map fun _ => 0
  /-- `sfIndexPrevious` of the root is the last page. -/
  last : ps.getLast? = (dir 0).map DirNode.indexPrevious
  /-- The last page names the root. -/
  wraps : ∀ page ∈ ps.getLast?, (dir page).map DirNode.indexNext = some 0

section

variable {dir dir' : Directory} {page page' : Nat} {node : DirNode} {key key' : UInt256}

theorem Chained.indexNext_of_follows (h : dir.Chained) (hfol : Follows dir.pages page page') :
    (dir page).map DirNode.indexNext = some page' := by
  obtain ⟨node, hnode⟩ := exists_of_mem_pages hfol.left
  rw [hnode, Option.map_some, (h.next hnode).right_unique hfol]

theorem Chained.indexPrevious_of_follows (h : dir.Chained) (hfol : Follows dir.pages page page') :
    (dir page').map DirNode.indexPrevious = some page := by
  obtain ⟨node, hnode⟩ := exists_of_mem_pages hfol.right
  rw [hnode, Option.map_some, (h.previous hnode).left_unique hfol]

/-- **The chain**: the links run through all pages in increasing order. -/
theorem Chained.exists_lists (h : dir.Chained) : ∃ ps, dir.Lists ps := by
  have hfin : dir.pages.Finite := by
    refine (Finset.range (dir.lastPage + 1)).finite_toSet.subset fun page hpage => ?_
    rw [Finset.mem_coe, Finset.mem_range, Nat.lt_succ_iff]
    exact h.le_lastPage hpage
  have hmem : ∀ page, page ∈ hfin.toFinset.sort ↔ page ∈ dir.pages := by
    intro page
    rw [Finset.mem_sort, Set.Finite.mem_toFinset]
  have hsor := hfin.toFinset.sortedLT_sort
  generalize hfin.toFinset.sort = ps at hmem hsor
  have hcha := Follows.isChain_of_sortedLT hsor hmem
  have hlin := hcha.imp fun page page' hfol =>
    And.intro (h.indexNext_of_follows hfol) (h.indexPrevious_of_follows hfol)
  refine ⟨ps, ?_⟩
  cases hroot : dir 0 with
  | none =>
    have hnil : ps = [] := by
      rw [eq_nil_iff_forall_not_mem]
      intro page hpage
      exact h.root ⟨page, (hmem page).mp hpage⟩ hroot
    subst hnil
    exact ⟨hsor, hmem, hlin, by rw [hroot]; rfl, by rw [hroot]; rfl, by simp⟩
  | some root =>
    have hfol := h.lastPage_follows hroot
    have hzero : 0 ∈ ps := (hmem 0).mpr (mem_pages hroot)
    have hlast : dir.lastPage ∈ ps := (hmem _).mpr hfol.left
    have hhead : ps.head? = some 0 := by
      cases ps with
      | nil => exact nomatch hzero
      | cons page ps =>
        rcases mem_cons.mp hzero with hself | htail
        · rw [hself]
          rfl
        · have hlt := (pairwise_cons.mp hsor.pairwise).1 0 htail
          exact absurd hlt (Nat.not_lt_zero page)
    have hgetLast : ps.getLast? = some dir.lastPage := by
      rcases eq_nil_or_concat ps with rfl | ⟨ps', page, rfl⟩
      · exact nomatch hzero
      rw [concat_eq_append] at hlast hmem hsor ⊢
      rw [List.getLast?_concat]
      rcases mem_append.mp hlast with hbef | hself
      · have hlt := (pairwise_append.mp hsor.pairwise).2.2 _ hbef page (by simp)
        have hle := h.le_lastPage ((hmem page).mp (by simp))
        exact absurd hlt (Nat.not_lt.mpr hle)
      · rw [mem_singleton.mp hself]
    refine ⟨hsor, hmem, hlin, by rw [hhead, hroot]; rfl, ?_, ?_⟩
    · rw [hgetLast]
      exact (h.indexPrevious_of_follows hfol).symm
    rw [hgetLast]
    rintro page hpage
    cases hpage
    exact h.indexNext_of_follows hfol

end

/-! ## Histories -/

/-- A call that changes a directory. -/
inductive Call where
  /-- `dirAppend` and `dirInsert`. -/
  | add (capped preserveOrder : Bool) (key : UInt256)
  /-- `dirRemove`. -/
  | remove (page : Nat) (key : UInt256) (keepRoot : Bool)
  /-- `emptyDirDelete`. -/
  | delete

/-- A directory, and the keys put in and not taken out, with the pages told. -/
structure Tracked where
  /-- What the callers know. -/
  entries : Multiset (ℕ × UInt256)
  /-- What the ledger has. -/
  dir : Directory

/-- The effect of a call that returns. -/
inductive Step : Tracked → Call → Tracked → Prop where
  | added {entries dir dir' capped preserveOrder key page} :
      dirAdd capped preserveOrder dir key = .ok (some (page, dir')) →
      Step ⟨entries, dir⟩ (.add capped preserveOrder key) ⟨(page, key) ::ₘ entries, dir'⟩
  /-- There are no more pages. -/
  | full {entries dir capped preserveOrder key} :
      dirAdd capped preserveOrder dir key = .ok none →
      Step ⟨entries, dir⟩ (.add capped preserveOrder key) ⟨entries, dir⟩
  | removed {entries dir dir' page key keepRoot found} :
      dirRemove dir page key keepRoot = .ok (found, dir') →
      Step ⟨entries, dir⟩ (.remove page key keepRoot) ⟨entries.erase (page, key), dir'⟩
  | deleted {entries dir dir' found} :
      emptyDirDelete dir = .ok (found, dir') → Step ⟨entries, dir⟩ .delete ⟨entries, dir'⟩

/-- The keys that the callers know to be on a page. -/
def keysOn (entries : Multiset (ℕ × UInt256)) (page : ℕ) : Multiset UInt256 :=
  (entries.filter fun entry => entry.1 = page).map Prod.snd

/-- The directory is chained, and each page has the keys that the callers know. -/
structure Tracked.Correct (s : Tracked) : Prop where
  chained : s.dir.Chained
  keys_eq : ∀ page, (s.dir.keys page : Multiset UInt256) = keysOn s.entries page

section

variable {entries : Multiset (ℕ × UInt256)} {dir dir' : Directory} {page page' : Nat}
  {key : UInt256} {s t : Tracked} {calls : List Call}

theorem keysOn_cons_self : keysOn ((page, key) ::ₘ entries) page = key ::ₘ keysOn entries page := by
  simp [keysOn]

theorem keysOn_cons_of_ne (h : page' ≠ page) :
    keysOn ((page, key) ::ₘ entries) page' = keysOn entries page' := by
  simp [keysOn, h.symm]

theorem mem_keysOn : key ∈ keysOn entries page ↔ (page, key) ∈ entries := by
  simp [keysOn]

theorem keysOn_erase_self :
    keysOn (entries.erase (page, key)) page = (keysOn entries page).erase key := by
  by_cases h : (page, key) ∈ entries
  · obtain ⟨rest, rfl⟩ := Multiset.exists_cons_of_mem h
    rw [Multiset.erase_cons_head, keysOn_cons_self, Multiset.erase_cons_head]
  · rw [Multiset.erase_of_notMem h, Multiset.erase_of_notMem (mem_keysOn.not.mpr h)]

theorem keysOn_erase_of_ne (h : page' ≠ page) :
    keysOn (entries.erase (page, key)) page' = keysOn entries page' := by
  by_cases hmem : (page, key) ∈ entries
  · obtain ⟨rest, rfl⟩ := Multiset.exists_cons_of_mem hmem
    rw [Multiset.erase_cons_head, keysOn_cons_of_ne h]
  · rw [Multiset.erase_of_notMem hmem]

theorem keysOn_eq_zero_iff : (∀ page, keysOn entries page = 0) ↔ entries = 0 := by
  constructor
  · intro hemp
    rw [Multiset.eq_zero_iff_forall_notMem]
    rintro ⟨page, key⟩ hmem
    have hkey := mem_keysOn.mpr hmem
    rw [hemp] at hkey
    exact Multiset.notMem_zero key hkey
  · rintro rfl page
    rfl

namespace Tracked

section

variable (h : s.Correct)

include h

theorem Correct.holds_iff : s.dir.Holds page key ↔ (page, key) ∈ s.entries := by
  rw [holds_iff_mem_keys, ← mem_keysOn, ← h.keys_eq, Multiset.mem_coe]

theorem Correct.keys_eq_nil_iff : (∀ page, s.dir.keys page = []) ↔ s.entries = 0 := by
  rw [← keysOn_eq_zero_iff]
  refine forall_congr' fun page => ?_
  rw [← h.keys_eq, Multiset.coe_eq_zero]

theorem Correct.add {capped preserveOrder : Bool} (hcha : dir'.Chained)
    (hok : s.dir.dirAdd capped preserveOrder key = .ok (some (page, dir'))) :
    Correct ⟨(page, key) ::ₘ s.entries, dir'⟩ := by
  obtain ⟨indexes, hperm, hkeys⟩ := keys_dirAdd hok
  refine ⟨hcha, fun page' => ?_⟩
  rw [hkeys]
  by_cases hpage : page' = page
  · subst hpage
    rw [update_self, keysOn_cons_self, ← h.keys_eq, Multiset.cons_coe]
    exact Quot.sound hperm
  · rw [update_of_ne hpage, keysOn_cons_of_ne hpage, h.keys_eq]

theorem Correct.remove {keepRoot found : Bool} (hcha : dir'.Chained)
    (hok : s.dir.dirRemove page key keepRoot = .ok (found, dir')) :
    Correct ⟨s.entries.erase (page, key), dir'⟩ := by
  refine ⟨hcha, fun page' => ?_⟩
  rcases keys_dirRemove hok with ⟨-, rfl, hmis⟩ | ⟨-, -, hkeys⟩
  · rw [Multiset.erase_of_notMem (h.holds_iff.not.mp hmis), h.keys_eq]
  rw [hkeys]
  by_cases hpage : page' = page
  · subst hpage
    rw [update_self, keysOn_erase_self, ← h.keys_eq, Multiset.coe_erase]
  · rw [update_of_ne hpage, keysOn_erase_of_ne hpage, h.keys_eq]

/-- A removal returns: it finds the key iff the callers know it there, and the root goes with the
last key unless kept. -/
theorem Correct.dirRemove (page : ℕ) (key : UInt256) (keepRoot : Bool) :
    ∃ found dir', s.dir.dirRemove page key keepRoot = .ok (found, dir') ∧ dir'.Chained ∧
      dir'.lastPage ≤ s.dir.lastPage ∧ (found = true ↔ (page, key) ∈ s.entries) ∧
      (found = true → (dir' 0 = none ↔ keepRoot = false ∧ s.entries.erase (page, key) = 0)) := by
  by_cases hmem : (page, key) ∈ s.entries
  · obtain ⟨dir', hok, hcha, hlast, hroot⟩ := h.chained.dirRemove (h.holds_iff.mpr hmem) keepRoot
    refine ⟨true, dir', hok, hcha, hlast, iff_of_true rfl hmem, fun _ => ?_⟩
    rw [hroot, ← (h.remove hcha hok).keys_eq_nil_iff]
  refine ⟨false, s.dir, ?_, h.chained, le_rfl, iff_of_false Bool.false_ne_true hmem,
    fun hfou => absurd hfou Bool.false_ne_true⟩
  have hmis := h.holds_iff.not.mpr hmem
  unfold Directory.dirRemove
  cases hnode : s.dir page with
  | none => rfl
  | some node =>
    dsimp only
    rw [if_neg fun hkey => hmis ⟨node, hnode, hkey⟩]

theorem Correct.dirAdd_iff (capped preserveOrder : Bool) (key : UInt256)
    (hroom : s.dir.lastPage + 1 < 0x10000000000000000) :
    (∃ result, s.dir.dirAdd capped preserveOrder key = .ok result) ↔
      ((s.dir.lastPage, key) ∈ s.entries →
        dirNodeMaxEntries ≤ (s.dir.keys s.dir.lastPage).length) := by
  rw [← h.holds_iff]
  constructor
  · rintro ⟨result, hok⟩ hh
    by_contra hspa
    rw [h.chained.dirAdd_double hh (Nat.not_le.mp hspa)] at hok
    cases hok
  · intro hfre
    rcases h.chained.dirAdd hfre capped preserveOrder hroom with ⟨hok, -⟩ | ⟨_, _, hok, -⟩
    · exact ⟨_, hok⟩
    · exact ⟨_, hok⟩

/-- **One call**: a call that returns keeps the directory as the callers know it. -/
theorem Correct.step {call : Call}
    (hroom : s.dir.lastPage + 1 < 0x10000000000000000) (hstep : Step s call t) :
    t.Correct ∧ t.dir.lastPage ≤ s.dir.lastPage + 1 := by
  cases hstep with
  | @added entries dir dir' capped preserveOrder key page hok =>
    have hfre := (h.dirAdd_iff capped preserveOrder key hroom).mp ⟨_, hok⟩
    rw [← h.holds_iff] at hfre
    rcases h.chained.dirAdd hfre capped preserveOrder hroom with
      ⟨hfull, -⟩ | ⟨page', dir'', hadd, hcha, hlast⟩
    · cases hok.symm.trans hfull
    · cases hok.symm.trans hadd
      exact ⟨h.add hcha hok, hlast⟩
  | full => exact ⟨h, Nat.le_succ _⟩
  | @removed entries dir dir' page key keepRoot found hok =>
    obtain ⟨found', dir'', hrem, hcha, hlast, -⟩ := h.dirRemove page key keepRoot
    cases hok.symm.trans hrem
    exact ⟨h.remove hcha hok, Nat.le_succ_of_le hlast⟩
  | @deleted entries dir dir' found hok =>
    obtain ⟨found', dir'', hdel, hcha, hkeys, hlast⟩ := h.chained.emptyDirDelete
    cases hok.symm.trans hdel
    refine ⟨⟨hcha, fun page => ?_⟩, Nat.le_succ_of_le hlast⟩
    rw [hkeys, h.keys_eq]

end

/-- No directory yet. -/
def start : Tracked := ⟨0, empty⟩

/-- **Every history**: the directory is as the callers know it, with at most a page for each call.
-/
theorem correct_of_run (h : Run Step start calls s) (hlen : calls.length < 0x10000000000000000) :
    s.Correct ∧ s.dir.lastPage ≤ calls.length := by
  revert hlen
  apply h.invariant fun calls s => calls.length < 0x10000000000000000 →
    s.Correct ∧ s.dir.lastPage ≤ calls.length
  · intro _
    exact ⟨⟨chained_empty, fun _ => rfl⟩, le_rfl⟩
  intro calls s call t ih hstep hlen
  rw [length_append, length_singleton] at hlen ⊢
  obtain ⟨hcor, hlast⟩ := ih (by omega)
  obtain ⟨hcor', hlast'⟩ := hcor.step (by omega) hstep
  exact ⟨hcor', by omega⟩

end Tracked

/-- **Directories**: after every history of fewer than 2⁶⁴ − 1 calls the pages form a chain through
increasing numbers, only the root may be empty, and each page has the keys put on it and not taken
out. An insertion returns unless its key is on the last page and there is space there. A removal
returns, finds the keys that are there, and takes the root with the last key iff it is not to be
kept. -/
theorem history_correct (h : Run Step Tracked.start calls s)
    (hlength : calls.length + 1 < 0x10000000000000000) :
    (∃ ps, s.dir.Lists ps) ∧
      (∀ page ≠ 0, s.dir page ≠ none → s.dir.keys page ≠ []) ∧
      (∀ page, (s.dir.keys page : Multiset UInt256) = keysOn s.entries page) ∧
      (∀ capped preserveOrder key,
        (∃ result, s.dir.dirAdd capped preserveOrder key = .ok result) ↔
          ((s.dir.lastPage, key) ∈ s.entries →
            dirNodeMaxEntries ≤ (s.dir.keys s.dir.lastPage).length)) ∧
      ∀ page key keepRoot, ∃ found dir',
        s.dir.dirRemove page key keepRoot = .ok (found, dir') ∧
        (found = true ↔ (page, key) ∈ s.entries) ∧
        (found = true → (dir' 0 = none ↔ keepRoot = false ∧ s.entries.erase (page, key) = 0)) := by
  obtain ⟨hcorrect, hlast⟩ := Tracked.correct_of_run h (by omega)
  refine ⟨hcorrect.chained.exists_lists, ?_, hcorrect.keys_eq, ?_, ?_⟩
  · intro page hpage hmem
    obtain ⟨node, hnode⟩ := exists_of_mem_pages hmem
    rw [keys_eq hnode]
    exact hcorrect.chained.nonempty hnode hpage
  · intro capped preserveOrder key
    exact hcorrect.dirAdd_iff capped preserveOrder key (by omega)
  · intro page key keepRoot
    obtain ⟨found, dir', hok, -, -, hfound, hroot⟩ := hcorrect.dirRemove page key keepRoot
    exact ⟨found, dir', hok, hfound, hroot⟩

/-- After a first insertion the key is on the root page. -/
theorem history_correct_singleton :
    ((empty.update 0 ⟨[zero], 0, 0⟩).keys 0 : Multiset UInt256)
      = keysOn {(0, zero)} 0 := by
  have hrun : Run Step Tracked.start [.add true true zero]
      ⟨{(0, zero)}, empty.update 0 ⟨[zero], 0, 0⟩⟩ :=
    Run.single (Step.added rfl)
  exact (history_correct hrun (by decide)).2.2.1 0

/-- Putting the same key in twice ends the process. -/
theorem dirAdd_twice : ∃ dir,
    dirAdd true true empty zero = .ok (some (0, dir)) ∧
      dir.dirAdd true true zero = .error "dirInsert: double insertion" :=
  ⟨_, rfl, rfl⟩

end

end Xahau.Directory
