import Xahau.Data.Successor
import Xahau.Ledger.Directory

/-! # Well-linked directories

The pages of a directory form a cycle in the order of their numbers. In a chained directory an
insertion finds a page unless the numbers have run out, a removal never stops at a broken link, and
both leave it chained. In a well-linked directory also every key is on one page only, and the root
goes with the last key. -/

namespace Xahau.Directory

open Checked Function List

def pages (dir : Directory) : Set ℕ := { page | dir page ≠ none }

/-- The number of the last page, zero if there is none. -/
def lastPage (dir : Directory) : ℕ := (dir 0).elim 0 DirNode.indexPrevious

/-- The first number that no page can have. -/
def pageLimit (capped : Bool) : ℕ := if capped then dirNodeMaxPages else 0x10000000000000000

/-- The directory without a page whose neighbours link to each other. -/
def unlinked (dir : Directory) (page : ℕ) (node : DirNode) : Directory := fun page' =>
  if page' = page then none
  else (dir page').map fun n =>
    { n with
      indexNext := if page' = node.indexPrevious then node.indexNext else n.indexNext
      indexPrevious := if page' = node.indexNext then node.indexPrevious else n.indexPrevious }

/-- Every page links to its neighbours in the order of the numbers, and only the root may be empty.
-/
structure Chained (dir : Directory) : Prop where
  root : dir.pages.Nonempty → 0 ∈ dir.pages
  next : ∀ {page node}, dir page = some node → Follows dir.pages page node.indexNext
  previous : ∀ {page node}, dir page = some node → Follows dir.pages node.indexPrevious page
  nonempty : ∀ {page node}, dir page = some node → page ≠ 0 → node.indexes ≠ []
  nodup : ∀ {page node}, dir page = some node → node.indexes.Nodup

/-- Every page links to its neighbours, every key is on one page, and only the root may be empty, if
there are others. -/
structure Linked (dir : Directory) : Prop where
  root : dir.pages.Nonempty → 0 ∈ dir.pages
  next : ∀ {page node}, dir page = some node → Follows dir.pages page node.indexNext
  previous : ∀ {page node}, dir page = some node → Follows dir.pages node.indexPrevious page
  nonempty : ∀ {page node}, dir page = some node → page ≠ 0 → node.indexes ≠ []
  rootNonempty : ∀ {node}, dir 0 = some node → node.indexes = [] → node.indexNext ≠ 0
  nodup : ∀ {page node}, dir page = some node → node.indexes.Nodup
  once : ∀ {page page' key}, dir.Holds page key → dir.Holds page' key → page = page'

section

variable {dir dir' : Directory} {page page' : Nat} {node : DirNode} {key key' : UInt256}

/-! ## The pages of a chained directory -/

theorem chained_empty : empty.Chained := by
  constructor
  · rintro ⟨page, hpage⟩
    exact absurd rfl hpage
  all_goals
    intro page node hnode
    cases hnode

theorem mem_pages (h : dir page = some node) : page ∈ dir.pages := by
  show dir page ≠ none
  rw [h]
  exact nofun

theorem exists_of_mem_pages (h : page ∈ dir.pages) : ∃ node, dir page = some node :=
  Option.ne_none_iff_exists'.mp h

theorem pages_update (h : page ∈ dir.pages) : (dir.update page node).pages = dir.pages := by
  ext page'
  unfold pages update
  by_cases hpage : page' = page
  · subst hpage
    exact iff_of_true (by simp) h
  · simp [hpage]

theorem lastPage_eq (hroot : dir 0 = some node) : dir.lastPage = node.indexPrevious := by
  unfold lastPage
  rw [hroot]
  rfl

theorem peek_of_eq_some {message : String} (h : dir page = some node) :
    dir.peek page message = .ok node := by
  unfold peek
  rw [h]

theorem update_ne (h : page' ≠ page) : dir.update page node page' = dir page' :=
  update_of_ne h _ _

theorem update_eq_some {node' : DirNode} (h : dir.update page node page' = some node') :
    (page' = page ∧ node' = node) ∨ dir page' = some node' := by
  by_cases hpage : page' = page
  · subst hpage
    rw [update, update_self] at h
    exact .inl ⟨rfl, (Option.some.inj h).symm⟩
  · rw [update_ne hpage] at h
    exact .inr h

theorem update_map (h : dir page = some node) (f : DirNode → DirNode) (page' : ℕ) :
    dir.update page (f node) page' = (dir page').map fun n => if page' = page then f n else n := by
  unfold update
  by_cases hpage : page' = page
  · subst hpage
    simp [h]
  · simp [hpage]

/-- A directory is chained if its root is there and every page fits among the others. -/
theorem chained_of_pages (hroot : dir.pages.Nonempty → 0 ∈ dir.pages)
    (h : ∀ {page node}, dir page = some node →
      Follows dir.pages page node.indexNext ∧ Follows dir.pages node.indexPrevious page ∧
        (page ≠ 0 → node.indexes ≠ []) ∧ node.indexes.Nodup) : dir.Chained :=
  ⟨hroot, fun hnode => (h hnode).1, fun hnode => (h hnode).2.1, fun hnode => (h hnode).2.2.1,
    fun hnode => (h hnode).2.2.2⟩

section

variable (h : dir.Chained)

include h

theorem Chained.eq_empty (hroot : dir 0 = none) : dir = empty := by
  funext page
  by_contra hpage
  exact h.root ⟨page, hpage⟩ hroot

theorem Chained.lastPage_follows (hroot : dir 0 = some node) :
    Follows dir.pages dir.lastPage 0 := by
  rw [lastPage_eq hroot]
  exact h.previous hroot

theorem Chained.le_lastPage (hpage : page ∈ dir.pages) : page ≤ dir.lastPage := by
  obtain ⟨root, hroot⟩ := exists_of_mem_pages (h.root ⟨page, hpage⟩)
  exact (h.lastPage_follows hroot).le_of_zero page hpage

theorem Chained.lastPage_le (h' : dir'.Chained)
    (hpag : dir'.pages ⊆ dir.pages) : dir'.lastPage ≤ dir.lastPage := by
  cases hroot : dir' 0 with
  | none =>
    unfold lastPage
    rw [hroot]
    exact Nat.zero_le _
  | some root => exact h.le_lastPage (hpag (h'.lastPage_follows hroot).left)

theorem Chained.indexNext_eq_zero_iff (hroot : dir 0 = some node) :
    node.indexNext = 0 ↔ node.indexPrevious = 0 := by
  have hnext := h.next hroot
  have hpre := h.previous hroot
  constructor
  · intro hzero
    rw [hzero] at hnext
    exact hpre.left_unique hnext
  · intro hzero
    rw [hzero] at hpre
    exact hnext.right_unique hpre

theorem Chained.keys_eq_nil_iff (hroot : dir 0 = some node) :
    (∀ page, dir.keys page = []) ↔ node.indexes = [] ∧ node.indexNext = 0 := by
  have hnext := h.next hroot
  constructor
  · intro hemp
    refine ⟨by rw [← keys_eq hroot, hemp], ?_⟩
    -- the page after the root would not be empty
    by_contra hne
    obtain ⟨next, hpage⟩ := exists_of_mem_pages hnext.right
    exact h.nonempty hpage hne (by rw [← keys_eq hpage, hemp])
  · rintro ⟨hind, hzero⟩ page
    rw [hzero] at hnext
    by_cases hpage : page = 0
    · rw [hpage, keys_eq hroot, hind]
    unfold keys
    rw [not_not.mp fun hmem => hpage (hnext.eq_zero_of_self.2 page hmem)]
    rfl

theorem Chained.erase_root (hemp : ∀ page, dir.keys page = []) : dir.erase 0 = empty := by
  funext page
  unfold erase
  by_cases hpage : page = 0
  · rw [hpage, update_self]
    rfl
  rw [update_of_ne hpage]
  by_contra hmem
  obtain ⟨node, hnode⟩ := exists_of_mem_pages hmem
  exact h.nonempty hnode hpage (by rw [← keys_eq hnode, hemp])

theorem Chained.update_indexes (hnode : dir page = some node)
    {indexes : List UInt256} (hne : page ≠ 0 → indexes ≠ []) (hnd : indexes.Nodup) :
    (dir.update page { node with indexes }).Chained := by
  have hpag : (dir.update page { node with indexes }).pages = dir.pages :=
    pages_update (mem_pages hnode)
  refine chained_of_pages ?_ ?_ <;> rw [hpag]
  · exact h.root
  intro page' node' hnode'
  rcases update_eq_some hnode' with ⟨rfl, rfl⟩ | hnode'
  · exact ⟨(h.next hnode :), (h.previous hnode :), hne, hnd⟩
  · exact ⟨h.next hnode', h.previous hnode', h.nonempty hnode', h.nodup hnode'⟩

end

/-! ## Insertion -/

theorem appendPage_eq {root : DirNode} {newPage : Nat} (key : UInt256) (hroot : dir 0 = some root)
    (hnode : dir page = some node) (hnew : dir newPage = none) :
    ∃ dir', dir.appendPage page newPage node key = .ok dir' ∧ ∀ page', dir' page' =
      if page' = newPage then some ⟨[key], 0, if newPage ≠ 1 then newPage - 1 else 0⟩
      else (dir page').map fun node =>
        { node with
          indexNext := if page' = page then newPage else node.indexNext
          indexPrevious := if page' = 0 then newPage else node.indexPrevious } := by
  -- the two updates of links, each a map over the pages
  have hlink := update_map hnode fun n => { n with indexNext := newPage }
  have hroot' : dir.update page { node with indexNext := newPage } 0 = _ := hlink 0
  rw [hroot, Option.map_some] at hroot'
  have hback := update_map hroot' fun n => { n with indexPrevious := newPage }
  have hfree : ((dir.update page { node with indexNext := newPage }).update 0 _) newPage = none :=
    (hback newPage).trans (by rw [hlink, hnew]; rfl)
  unfold appendPage
  dsimp only
  rw [peek_of_eq_some hroot', ok_bind, failIf_of_not (not_not.mpr hfree), ok_bind]
  refine ⟨_, rfl, fun page' => ?_⟩
  by_cases hpage' : page' = newPage
  · rw [if_pos hpage', hpage']
    exact update_self ..
  rw [if_neg hpage', update_ne hpage', hback, hlink, Option.map_map]
  congr
  funext n
  dsimp only [Function.comp]
  split_ifs <;> rfl

theorem Chained.appendPage {root : DirNode} (h : dir.Chained) (key : UInt256)
    (hroot : dir 0 = some root) (hnode : dir dir.lastPage = some node) :
    ∃ dir', dir.appendPage dir.lastPage (dir.lastPage + 1) node key = .ok dir' ∧ dir'.Chained ∧
      dir'.lastPage = dir.lastPage + 1 := by
  have hlast := h.lastPage_follows hroot
  have hlt : dir.lastPage < dir.lastPage + 1 := Nat.lt_succ_self _
  have hnew : dir (dir.lastPage + 1) = none := by
    by_contra hnew
    exact absurd (h.le_lastPage hnew) (Nat.not_le.mpr hlt)
  have hback : (if dir.lastPage + 1 ≠ 1 then dir.lastPage + 1 - 1 else 0) = dir.lastPage := by
    split <;> omega
  obtain ⟨dir', hok, heq⟩ := appendPage_eq key hroot hnode hnew
  rw [hback] at heq
  generalize hnewPage : dir.lastPage + 1 = newPage at *
  have hpag : dir'.pages = insert newPage dir.pages := by
    ext page'
    show dir' page' ≠ none ↔ page' = newPage ∨ dir page' ≠ none
    rw [heq]
    by_cases hpage' : page' = newPage <;> simp [hpage']
  have hcas : ∀ {page' node'}, dir' page' = some node' →
      (page' = newPage ∧ node' = ⟨[key], 0, dir.lastPage⟩) ∨ ∃ node, dir page' = some node ∧
        node' = { node with
          indexNext := if page' = dir.lastPage then newPage else node.indexNext
          indexPrevious := if page' = 0 then newPage else node.indexPrevious } := by
    intro page' node' hnode'
    rw [heq] at hnode'
    split at hnode'
    · exact .inl ⟨‹_›, (Option.some.inj hnode').symm⟩
    · obtain ⟨node, hnode, rfl⟩ := Option.map_eq_some_iff.mp hnode'
      exact .inr ⟨node, hnode, rfl⟩
  refine ⟨dir', hok, ?_, ?_⟩
  · refine chained_of_pages ?_ ?_ <;> rw [hpag]
    · exact fun _ => Set.mem_insert_of_mem _ (mem_pages hroot)
    intro page' node' hnode'
    rcases hcas hnode' with ⟨rfl, rfl⟩ | ⟨node, hnode, rfl⟩
    · exact ⟨hlast.insert_zero hlt, hlast.insert_last hlt, fun _ => cons_ne_nil key [],
        nodup_singleton key⟩
    refine ⟨?_, ?_, (h.nonempty hnode :), (h.nodup hnode :)⟩
    · show Follows _ page' (if _ then _ else _)
      split
      next hpage' =>
        rw [hpage']
        exact hlast.insert_last hlt
      rename_i hpage'
      have hnext := h.next hnode
      refine hnext.insert_of_ne_zero ?_ ((h.le_lastPage hnext.right).trans hlt.le)
      intro hzero
      rw [hzero] at hnext
      exact hpage' (hnext.left_unique hlast)
    · show Follows _ (if _ then _ else _) page'
      split
      next hzero =>
        rw [hzero]
        exact hlast.insert_zero hlt
      · exact (h.previous hnode).insert_of_ne_zero ‹_›
          ((h.le_lastPage (mem_pages hnode)).trans hlt.le)
  · have hzero : (0 : ℕ) ≠ newPage := (Nat.zero_lt_of_lt hlt).ne
    unfold lastPage
    rw [heq, if_neg hzero, hroot]
    rfl

theorem chained_singleton (key : UInt256) : (empty.update 0 ⟨[key], 0, 0⟩).Chained := by
  have hsin : ∀ {page' node'}, empty.update 0 ⟨[key], 0, 0⟩ page' = some node' →
      page' = 0 ∧ node' = ⟨[key], 0, 0⟩ := by
    intro page' node' hnode'
    rcases update_eq_some hnode' with hself | hn
    · exact hself
    · cases hn
  have hpag : (empty.update 0 ⟨[key], 0, 0⟩).pages = {0} := by
    ext page'
    refine ⟨fun hpage => ?_, ?_⟩
    · obtain ⟨node, hnode⟩ := exists_of_mem_pages hpage
      exact (hsin hnode).1
    · rintro rfl
      exact mem_pages (update_self ..)
  refine chained_of_pages ?_ ?_ <;> rw [hpag]
  · exact fun _ => rfl
  intro page' node' hnode'
  obtain ⟨rfl, rfl⟩ := hsin hnode'
  exact ⟨.singleton, .singleton, fun hne => absurd rfl hne, nodup_singleton key⟩

/-- **Insertion**: a key that is not on the last page, or has no space there, finds a page unless
they have run out, and the directory stays chained. -/
theorem Chained.dirAdd (h : dir.Chained)
    (hfre : dir.Holds dir.lastPage key → dirNodeMaxEntries ≤ (dir.keys dir.lastPage).length)
    (capped preserveOrder : Bool) (hroom : dir.lastPage + 1 < 0x10000000000000000) :
    (dir.dirAdd capped preserveOrder key = .ok none ∧ pageLimit capped ≤ dir.lastPage + 1) ∨
      ∃ page dir', dir.dirAdd capped preserveOrder key = .ok (some (page, dir')) ∧ dir'.Chained ∧
        dir'.lastPage ≤ dir.lastPage + 1 := by
  unfold Directory.dirAdd
  cases hroot : dir 0 with
  | none =>
    rw [h.eq_empty hroot]
    exact .inr ⟨0, _, rfl, chained_singleton key, Nat.zero_le _⟩
  | some root =>
    have hlast := h.lastPage_follows hroot
    have hpage := (lastPage_eq hroot).symm
    obtain ⟨node, hnode⟩ := exists_of_mem_pages hlast.left
    dsimp only
    rw [hpage, peek_of_eq_some hnode, ok_bind]
    split
    · -- there is space on the last page
      rename_i hspa
      have hmis : key ∉ node.indexes := by
        intro hkey
        have hfull := hfre ⟨node, hnode, hkey⟩
        rw [keys_eq hnode] at hfull
        exact absurd hspa (Nat.not_lt.mpr hfull)
      rw [failIf_of_not hmis, ok_bind]
      have hperm := insertKey_perm preserveOrder node.indexes key
      refine .inr ⟨_, _, rfl, ?_, ?_⟩
      · refine h.update_indexes hnode (fun _ hnil => ?_) ?_
        · rw [hnil] at hperm
          exact absurd hperm.symm.eq_nil (cons_ne_nil _ _)
        · rw [hperm.nodup_iff, nodup_cons]
          exact ⟨hmis, h.nodup hnode⟩
      · refine Nat.le_succ_of_le (le_of_eq ?_)
        show ((dir.update dir.lastPage _) 0).elim 0 _ = _
        unfold update
        by_cases hzero : 0 = dir.lastPage
        · rw [← hzero, update_self]
          rw [← hzero, hroot] at hnode
          cases hnode
          exact hpage.trans hzero.symm
        · rw [update_of_ne hzero, hroot]
          exact hpage
    · rw [Nat.mod_eq_of_lt hroom]
      split
      next hfull =>
        unfold pageLimit
        rw [if_pos hfull.2]
        exact .inl ⟨rfl, hfull.1⟩
      · obtain ⟨dir', hok, hcha, hlast'⟩ := h.appendPage key hroot hnode
        rw [hok, ok_bind]
        exact .inr ⟨_, dir', rfl, hcha, hlast'.le⟩

theorem Chained.dirAdd_double (h : dir.Chained) (hh : dir.Holds dir.lastPage key)
    (hspa : (dir.keys dir.lastPage).length < dirNodeMaxEntries) (capped preserveOrder : Bool) :
    dir.dirAdd capped preserveOrder key = .error "dirInsert: double insertion" := by
  obtain ⟨node, hnode, hkey⟩ := hh
  obtain ⟨root, hroot⟩ := exists_of_mem_pages (h.root ⟨_, mem_pages hnode⟩)
  rw [keys_eq hnode] at hspa
  unfold Directory.dirAdd
  rw [hroot]
  dsimp only
  rw [← lastPage_eq hroot, peek_of_eq_some hnode, ok_bind, if_pos hspa]
  unfold failIf
  rw [if_pos hkey]
  rfl

/-! ## Removal -/

theorem Chained.removeFromRoot (h : dir.Chained) (hnode : dir 0 = some node) (keepRoot : Bool) :
    ∃ dir', (dir.update 0 { node with indexes := [] }).removeFromRoot keepRoot = .ok (true, dir') ∧
      dir'.Chained ∧ dir'.pages ⊆ dir.pages ∧
      (dir' 0 = none ↔ keepRoot = false ∧ node.indexNext = 0) := by
  have hnext := h.next hnode
  have hlin := h.indexNext_eq_zero_iff hnode
  have hself : dir.update 0 { node with indexes := [] } 0 = some { node with indexes := [] } :=
    update_self ..
  have hcha : (dir.update 0 { node with indexes := [] }).Chained :=
    h.update_indexes hnode (fun hne => absurd rfl hne) nodup_nil
  have hpag : (dir.update 0 { node with indexes := [] }).pages ⊆ dir.pages := by
    rw [pages_update (mem_pages hnode)]
  unfold Directory.removeFromRoot
  rw [peek_of_eq_some hself, ok_bind, failIf_of_not fun hbro => hbro.2 (hlin.mp hbro.1),
    ok_bind, failIf_of_not fun hbro => hbro.2 (hlin.mpr hbro.1), ok_bind]
  split
  · -- the only other page is not empty
    rename_i hoth
    obtain ⟨last, hlast⟩ := exists_of_mem_pages hnext.right
    have hlast' : dir.update 0 { node with indexes := [] } node.indexNext = some last :=
      (update_ne hoth.2).trans hlast
    rw [peek_of_eq_some hlast', ok_bind, if_neg (h.nonempty hlast hoth.2)]
    refine ⟨_, rfl, hcha, hpag, ?_⟩
    rw [hself]
    simp [hoth.2]
  · split
    next hsin =>
      have hgone : (dir.update 0 { node with indexes := [] }).erase 0 = empty :=
        hcha.erase_root ((hcha.keys_eq_nil_iff hself).mpr ⟨rfl, hsin.2.1⟩)
      rw [hgone]
      exact ⟨empty, rfl, chained_empty, fun page hpage => absurd rfl hpage,
        iff_of_true rfl ⟨hsin.1, hsin.2.1⟩⟩
    next hsin =>
      refine ⟨_, rfl, hcha, hpag, ?_⟩
      rw [hself]
      refine iff_of_false nofun ?_
      rintro ⟨hdrop, hzero⟩
      exact hsin ⟨hdrop, hzero, hlin.mp hzero⟩

section

variable (h : dir.Chained) (hnode : dir page = some node) (hpage : page ≠ 0)

include h hnode hpage

theorem Chained.unlinkPage_eq (keepRoot : Bool) :
    ∃ prev, dir node.indexPrevious = some prev ∧
      (dir.update page { node with indexes := [] }).unlinkPage page { node with indexes := [] }
        keepRoot = .ok (true, if keepRoot = false ∧ node.indexNext = 0 ∧ node.indexPrevious = 0 ∧
            prev.indexes = [] then (dir.unlinked page node).erase 0 else dir.unlinked page node) := by
  have hnext := h.next hnode
  have hpre := h.previous hnode
  have hnextP : node.indexNext ≠ page := by
    intro heq
    rw [heq] at hnext
    exact hpage hnext.eq_zero_of_self.1
  have hprevP : node.indexPrevious ≠ page := hpre.ne_of_ne_zero hpage
  obtain ⟨prev, hprev⟩ := exists_of_mem_pages hpre.left
  obtain ⟨next, hnex⟩ := exists_of_mem_pages hnext.right
  have hprev' : dir.update page { node with indexes := [] } node.indexPrevious = some prev :=
    (update_ne hprevP).trans hprev
  -- the two updates of links, each a map over the pages
  have hlink := update_map hprev' fun n => { n with indexNext := node.indexNext }
  have hnext' := hlink node.indexNext
  rw [update_ne hnextP, hnex, Option.map_some] at hnext'
  generalize hnext'Eq : (if node.indexNext = node.indexPrevious then _ else next) = next' at hnext'
  have hkee : ¬ (node.indexNext ≠ 0 ∧ next'.indexNext = 0 ∧ next'.indexes = []) := by
    rintro ⟨hne, -, hemp⟩
    subst hnext'Eq
    split at hemp <;> exact h.nonempty hnex hne hemp
  have hback := update_map hnext' fun n => { n with indexPrevious := node.indexPrevious }
  have hunl : (((dir.update page { node with indexes := [] }).update node.indexPrevious
      { prev with indexNext := node.indexNext }).update node.indexNext
      { next' with indexPrevious := node.indexPrevious }).erase page = dir.unlinked page node := by
    funext page'
    unfold erase unlinked
    by_cases hself : page' = page
    · rw [if_pos hself, hself, update_self]
    rw [update_of_ne hself, if_neg hself, hback, hlink, update_ne hself, Option.map_map]
    congr
    funext n
    dsimp only [Function.comp]
    split_ifs <;> rfl
  refine ⟨prev, hprev, ?_⟩
  unfold Directory.unlinkPage
  dsimp only
  rw [failIf_of_not hnextP, ok_bind, failIf_of_not hprevP, ok_bind, peek_of_eq_some hprev',
    ok_bind, peek_of_eq_some hnext', ok_bind, decide_eq_false hkee]
  simp only [Bool.false_eq_true, if_false, ok_bind, false_or, hunl]
  split
  next hgone =>
    rw [hgone.2.2.1]
  · rfl

theorem Chained.without :
    (dir.unlinked page node).Chained ∧ (dir.unlinked page node).pages = dir.pages \ {page} := by
  have hnext := h.next hnode
  have hpre := h.previous hnode
  have hpag : (dir.unlinked page node).pages = dir.pages \ {page} := by
    ext page'
    show dir.unlinked page node page' ≠ none ↔ dir page' ≠ none ∧ page' ≠ page
    unfold unlinked
    by_cases hpage' : page' = page <;> simp [hpage']
  refine ⟨chained_of_pages ?_ ?_, hpag⟩ <;> rw [hpag]
  · exact fun _ => ⟨h.root ⟨page, mem_pages hnode⟩, hpage.symm⟩
  intro page' node' hnode'
  unfold unlinked at hnode'
  split at hnode'
  · cases hnode'
  rename_i hne
  obtain ⟨n, hn, rfl⟩ := Option.map_eq_some_iff.mp hnode'
  refine ⟨?_, ?_, (h.nonempty hn :), (h.nodup hn :)⟩
  · show Follows _ page' (if _ then _ else _)
    split
    next hbef =>
      rw [hbef]
      exact Follows.join hpage hpre hnext
    rename_i hbef
    refine (h.next hn).diff hne ?_
    intro heqPage
    have hfol := h.next hn
    rw [heqPage] at hfol
    exact hbef (hfol.left_unique hpre)
  · show Follows _ (if _ then _ else _) page'
    split
    next haft =>
      rw [haft]
      exact Follows.join hpage hpre hnext
    rename_i haft
    refine (h.previous hn).diff ?_ hne
    intro heqPage
    have hfol := h.previous hn
    rw [heqPage] at hfol
    exact haft (hfol.right_unique hnext)

theorem Chained.unlinkPage (keepRoot : Bool) :
    ∃ dir', (dir.update page { node with indexes := [] }).unlinkPage page
        { node with indexes := [] } keepRoot = .ok (true, dir') ∧
      dir'.Chained ∧ dir'.pages ⊆ dir.pages ∧
      (dir' 0 = none ↔ keepRoot = false ∧ ∀ page, dir'.keys page = []) := by
  obtain ⟨prev, hprev, hok⟩ := h.unlinkPage_eq hnode hpage keepRoot
  obtain ⟨hcha, hpag⟩ := h.without hnode hpage
  obtain ⟨root, hroot⟩ := exists_of_mem_pages (h.root ⟨page, mem_pages hnode⟩)
  have hroot₁ : dir.unlinked page node 0 = _ := if_neg hpage.symm
  rw [hroot, Option.map_some] at hroot₁
  -- the pages left are without keys only if the root was before the page and is empty
  have hgone : (∀ page', (dir.unlinked page node).keys page' = []) ↔
      node.indexNext = 0 ∧ node.indexPrevious = 0 ∧ prev.indexes = [] := by
    rw [hcha.keys_eq_nil_iff hroot₁]
    by_cases hzero : 0 = node.indexPrevious
    · rw [← hzero, hroot] at hprev
      cases hprev
      rw [if_pos hzero, and_comm]
      simp [← hzero]
    rw [if_neg hzero]
    refine iff_of_false ?_ (fun hall => hzero hall.2.1.symm)
    rintro ⟨-, hlast⟩
    have hnext := h.next hroot
    rw [hlast] at hnext
    exact hpage (hnext.eq_zero_of_self.2 page (mem_pages hnode))
  refine ⟨_, hok, ?_⟩
  split
  next hdro =>
    rw [hcha.erase_root (hgone.mpr hdro.2)]
    exact ⟨chained_empty, fun page' hpage' => absurd rfl hpage',
      iff_of_true rfl ⟨hdro.1, fun _ => rfl⟩⟩
  rename_i hsta
  refine ⟨hcha, ?_, ?_⟩
  · rw [hpag]
    exact Set.sdiff_subset
  · rw [hgone, hroot₁]
    exact iff_of_false nofun hsta

end

/-- **Removal**: the key goes from its page, the directory stays chained, and the root goes with the
last key unless kept. -/
theorem Chained.dirRemove (h : dir.Chained) (hh : dir.Holds page key) (keepRoot : Bool) :
    ∃ dir', dir.dirRemove page key keepRoot = .ok (true, dir') ∧ dir'.Chained ∧
      dir'.lastPage ≤ dir.lastPage ∧
      (dir' 0 = none ↔ keepRoot = false ∧ ∀ page, dir'.keys page = []) := by
  obtain ⟨node, hnode, hkey⟩ := hh
  suffices ∃ dir', dir.dirRemove page key keepRoot = .ok (true, dir') ∧ dir'.Chained ∧
      dir'.pages ⊆ dir.pages ∧ (dir' 0 = none ↔ keepRoot = false ∧ ∀ page, dir'.keys page = []) by
    obtain ⟨dir', hok, hcha, hpag, hroot⟩ := this
    exact ⟨dir', hok, hcha, h.lastPage_le hcha hpag, hroot⟩
  unfold Directory.dirRemove
  rw [hnode]
  dsimp only
  rw [if_pos hkey]
  by_cases hemp : node.indexes.erase key = []
  · rw [if_neg (not_not.mpr hemp), hemp]
    by_cases hpage : page = 0
    · subst hpage
      rw [if_pos rfl]
      obtain ⟨dir', hok, hcha, hpag, hroot⟩ := h.removeFromRoot hnode keepRoot
      refine ⟨dir', hok, hcha, hpag, ?_⟩
      have hself : dir.update 0 { node with indexes := [] } 0 = some { node with indexes := [] } :=
        update_self ..
      have hkeys := (keys_removeFromRoot (keys_eq hself) hok).2
      have hupd : (dir.update 0 { node with indexes := [] }).Chained :=
        h.update_indexes hnode (fun hne => absurd rfl hne) nodup_nil
      rw [hroot, hkeys, hupd.keys_eq_nil_iff hself]
      simp
    · rw [if_neg hpage]
      exact h.unlinkPage hnode hpage keepRoot
  · rw [if_pos hemp]
    have hcha := h.update_indexes hnode (fun _ => hemp) ((h.nodup hnode).erase key)
    have hpag : (dir.update page { node with indexes := node.indexes.erase key }).pages
        = dir.pages := pages_update (mem_pages hnode)
    refine ⟨_, rfl, hcha, hpag.subset, iff_of_false ?_ ?_⟩
    · intro hroot
      have hmem := h.root ⟨page, mem_pages hnode⟩
      rw [← hpag] at hmem
      exact hmem hroot
    · rintro ⟨-, hall⟩
      have hself := hall page
      rw [keys_update, update_self] at hself
      exact hemp hself

theorem Chained.emptyDirDelete (h : dir.Chained) :
    ∃ found dir', dir.emptyDirDelete = .ok (found, dir') ∧ dir'.Chained ∧ dir'.keys = dir.keys ∧
      dir'.lastPage ≤ dir.lastPage := by
  unfold Directory.emptyDirDelete
  cases hroot : dir 0 with
  | none => exact ⟨false, dir, rfl, h, rfl, le_rfl⟩
  | some node =>
    have hlin := h.indexNext_eq_zero_iff hroot
    dsimp only
    split
    · exact ⟨false, dir, rfl, h, rfl, le_rfl⟩
    rw [failIf_of_not fun hbro => hbro.2 (hlin.mp hbro.1), ok_bind,
      failIf_of_not fun hbro => hbro.2 (hlin.mpr hbro.1), ok_bind]
    split
    next hoth =>
      obtain ⟨last, hlast⟩ := exists_of_mem_pages (h.next hroot).right
      rw [peek_of_eq_some hlast, ok_bind, if_pos (h.nonempty hlast hoth.2)]
      exact ⟨false, dir, rfl, h, rfl, le_rfl⟩
    split
    next hind _ hsin =>
      have hemp := (h.keys_eq_nil_iff hroot).mpr ⟨not_not.mp hind, hsin.1⟩
      refine ⟨true, _, rfl, ?_⟩
      rw [keys_erase (hemp 0), h.erase_root hemp]
      exact ⟨chained_empty, rfl, Nat.zero_le _⟩
    · exact ⟨true, dir, rfl, h, rfl, le_rfl⟩

/-! ## Well-linked directories -/

theorem Linked.chained (h : dir.Linked) : dir.Chained :=
  ⟨h.root, h.next, h.previous, h.nonempty, h.nodup⟩

/-- A chained directory is well-linked if its root is there for a key and every key is on one page.
-/
theorem Chained.linked (h : dir.Chained) (hroot : dir 0 ≠ none → ¬ ∀ page, dir.keys page = [])
    (honce : ∀ {page page' key}, dir.Holds page key → dir.Holds page' key → page = page') :
    dir.Linked := by
  refine ⟨h.root, h.next, h.previous, h.nonempty, ?_, h.nodup, honce⟩
  intro node hnode hemp hzero
  have hsome : dir 0 ≠ none := by
    rw [hnode]
    exact nofun
  exact hroot hsome ((h.keys_eq_nil_iff hnode).mpr ⟨hemp, hzero⟩)

theorem linked_empty : empty.Linked :=
  chained_empty.linked (fun hroot => absurd rfl hroot) fun h => absurd h not_holds_empty

section

variable (h : dir.Linked)

include h

theorem Linked.eq_empty (hroot : dir 0 = none) : dir = empty := h.chained.eq_empty hroot

theorem Linked.le_lastPage (hpage : page ∈ dir.pages) : page ≤ dir.lastPage :=
  h.chained.le_lastPage hpage

theorem Linked.not_holds (hroot : dir 0 = none) : ¬ dir.Holds page key := by
  rw [h.eq_empty hroot]
  exact not_holds_empty

theorem Linked.exists_holds (hroot : dir 0 = some node) : ∃ page key, dir.Holds page key := by
  by_contra hn
  have hemp : ∀ page, dir.keys page = [] := by
    intro page
    rw [eq_nil_iff_forall_not_mem]
    intro key hkey
    exact hn ⟨page, key, holds_iff_mem_keys.mpr hkey⟩
  obtain ⟨hind, hzero⟩ := (h.chained.keys_eq_nil_iff hroot).mp hemp
  exact h.rootNonempty hroot hind hzero

theorem Linked.dirAdd (hfre : ∀ page, ¬ dir.Holds page key) {capped : Bool}
    (preserveOrder : Bool) (hroom : dir.lastPage + 1 < pageLimit capped) :
    ∃ page dir', dir.dirAdd capped preserveOrder key = .ok (some (page, dir')) ∧ dir'.Linked ∧
      dir'.lastPage ≤ dir.lastPage + 1 := by
  have hlim : pageLimit capped ≤ 0x10000000000000000 := by
    cases capped <;> decide
  rcases h.chained.dirAdd (fun hh => absurd hh (hfre _)) capped preserveOrder
    (hroom.trans_le hlim) with ⟨-, hfull⟩ | ⟨page, dir', hok, hcha, hlast⟩
  · exact absurd hroom (Nat.not_lt.mpr hfull)
  refine ⟨page, dir', hok, hcha.linked ?_ ?_, hlast⟩
  · intro _ hemp
    have hadd : dir'.Holds page key := (holds_dirAdd hok).mpr (.inl ⟨rfl, rfl⟩)
    rw [holds_iff_mem_keys, hemp] at hadd
    exact nomatch hadd
  intro page₁ page₂ key' h₁ h₂
  rw [holds_dirAdd hok] at h₁ h₂
  rcases h₁ with ⟨rfl, rfl⟩ | h₁
  · rcases h₂ with ⟨rfl, -⟩ | h₂
    · rfl
    · exact absurd h₂ (hfre _)
  · rcases h₂ with ⟨-, rfl⟩ | h₂
    · exact absurd h₁ (hfre _)
    · exact h.once h₁ h₂

theorem Linked.not_holds_dirRemove {keepRoot : Bool}
    (hok : dir.dirRemove page key keepRoot = .ok (true, dir')) : ¬ dir'.Holds page' key := by
  rcases keys_dirRemove hok with ⟨hfal, -⟩ | ⟨-, hkey, hkeys⟩
  · cases hfal
  rw [holds_iff_mem_keys, hkeys]
  by_cases hpage : page' = page
  · subst hpage
    obtain ⟨node, hnode, -⟩ := hkey
    rw [update_self, keys_eq hnode]
    exact (h.nodup hnode).not_mem_erase
  · rw [update_of_ne hpage, ← holds_iff_mem_keys]
    intro hh
    exact hpage (h.once hh hkey)

theorem Linked.dirRemove (hh : dir.Holds page key) :
    ∃ dir', dir.dirRemove page key false = .ok (true, dir') ∧ dir'.Linked ∧
      dir'.lastPage ≤ dir.lastPage := by
  obtain ⟨dir', hok, hcha, hlast, hroot⟩ := h.chained.dirRemove hh false
  refine ⟨dir', hok, hcha.linked ?_ ?_, hlast⟩
  · intro hsome hemp
    exact hsome (hroot.mpr ⟨rfl, hemp⟩)
  -- no key has moved
  have hsta : ∀ {page' key'}, dir'.Holds page' key' → dir.Holds page' key' := by
    intro page' key' h'
    by_cases hself : (page', key') = (page, key)
    · cases hself
      exact absurd h' (h.not_holds_dirRemove hok)
    · exact ((holds_dirRemove hok).2 page' key' hself).mp h'
  intro page₁ page₂ key' h₁ h₂
  exact h.once (hsta h₁) (hsta h₂)

end

end

end Xahau.Directory
