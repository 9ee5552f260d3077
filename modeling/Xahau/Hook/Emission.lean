import Xahau.Hook.View

/-! # The emission directory (`applyHook.cpp`)

`finalizeHookResult` puts the transactions that a hook has emitted into the emission directory, where
they wait to be applied, and `removeEmissionEntry` takes a transaction out once it was. -/

namespace Xahau.Hook

open Checked List Option

/-- `hook_api::ExitType`. -/
inductive ExitType : Type where
  | unset | wasmError | rollback | accept
  deriving DecidableEq, Repr

/-- `HookResult`, as far as it is used once the hook has ended. -/
structure HookResult where
  account : AccountID
  hookHash : UInt256
  /-- The transactions that the hook has emitted, oldest first. -/
  emittedTxn : List STTx
  hookParamOverrides : ParamOverrides
  hookSkips : List UInt256
  exitType : ExitType
  executeAgainAsWeak : Bool

section

variable (view : View) (dir : Directory) (id : UInt256) (entry : Option EmittedTxn)

def View.setEmission : View :=
  { view with emittedTxn := Function.update view.emittedTxn id entry, emittedDir := dir }

@[simp] theorem View.emittedTxn_setEmission :
    (view.setEmission dir id entry).emittedTxn id = entry :=
  Function.update_self ..

theorem View.emittedTxn_setEmission_of_ne {id id' : UInt256} (entry : Option EmittedTxn)
    (h : id' ≠ id) : (view.setEmission dir id entry).emittedTxn id' = view.emittedTxn id' :=
  Function.update_of_ne h ..

end

/-- The loop of `finalizeHookResult`, with what it has inserted. -/
def insertEmissions : List STTx → View → Except String (Ter × View × List (UInt256 × UInt256))
  | [], view => .ok (.tesSUCCESS, view, [])
  | tx :: txs, view =>
    match view.emittedTxn tx.transactionID, tx.emitDetails with
    | some _, _ => insertEmissions txs view
    | none, none => .error "Field not found"
    | none, some emitDetails => do
      match ← view.emittedDir.dirAdd (!view.rules.enabled .fixPageCap) false
          tx.transactionID with
      | none => .ok (.tecDIR_FULL, view, [])
      | some (page, dir) =>
        let (result, view, emissionTxnid) ← insertEmissions txs
          (view.setEmission dir tx.transactionID (some ⟨tx, page⟩))
        .ok (result, view, (tx.transactionID, emitDetails.emitNonce) :: emissionTxnid)

/-- `finalizeHookResult`. The inserted identifiers and nonces are for the metadata. -/
def finalizeHookResult (hookResult : HookResult) (view : View) (doEmit : Bool) :
    Except String (Ter × View × List (UInt256 × UInt256)) :=
  -- open views do not modify add/remove ledger entries
  if view.isOpen ∨ doEmit = false then .ok (.tesSUCCESS, view, [])
  else insertEmissions hookResult.emittedTxn view

/-- The removal of an entry in `removeEmissionEntry` and `Change::applyEmitFailure`. -/
def eraseEmission (id : UInt256) (view : View) : Except String (Ter × View) :=
  match view.emittedTxn id with
  | none => .ok (.tesSUCCESS, view)
  | some entry => do
    let (found, dir) ← view.emittedDir.dirRemove entry.ownerNode id false
    if found = false then .ok (.tefBAD_LEDGER, view)
    else .ok (.tesSUCCESS, view.setEmission dir id none)

/-- `removeEmissionEntry`. -/
def removeEmissionEntry (tx : STTx) (view : View) : Except String (Ter × View) :=
  if tx.isEmittedTxn = false then .ok (.tesSUCCESS, view)
  else eraseEmission tx.transactionID view

/-! ## What is emitted -/

section

variable {view view' : View} {result : Ter}

/-- The emission directory stays as it is, and so do the rules. -/
structure SameEmissions (view view' : View) : Prop where
  emittedTxn : view'.emittedTxn = view.emittedTxn
  emittedDir : view'.emittedDir = view.emittedDir
  rules : view'.rules = view.rules
  isOpen : view'.isOpen = view.isOpen

variable {emissionTxnid : List (UInt256 × UInt256)} {txs : List STTx} {P : STTx → Prop}
  {view₁ : View}

theorem SameEmissions.trans (h : SameEmissions view view₁)
    (h' : SameEmissions view₁ view') : SameEmissions view view' where
  emittedTxn := h'.emittedTxn.trans h.emittedTxn
  emittedDir := h'.emittedDir.trans h.emittedDir
  rules := h'.rules.trans h.rules
  isOpen := h'.isOpen.trans h.isOpen

/-- Also the import sequences stay as they are. -/
structure Unmoved (view view' : View) : Prop extends SameEmissions view view' where
  imports : view'.imports = view.imports

theorem Unmoved.refl : Unmoved view view := ⟨⟨rfl, rfl, rfl, rfl⟩, rfl⟩

theorem Unmoved.trans (h : Unmoved view view₁) (h' : Unmoved view₁ view') : Unmoved view view' :=
  ⟨h.toSameEmissions.trans h'.toSameEmissions, h'.imports.trans h.imports⟩

/-- Putting transactions with `P` into the emission directory; `ids` were inserted. -/
structure Emits (P : STTx → Prop) (view view' : View) (ids : List UInt256) : Prop where
  /-- Entries stay. -/
  kept : ∀ id entry, view.emittedTxn id = some entry → view'.emittedTxn id = some entry
  /-- Keys stay on their pages. -/
  holds : ∀ page id, view.emittedDir.Holds page id → view'.emittedDir.Holds page id
  /-- New entries are for the transactions. -/
  new : ∀ id entry, view'.emittedTxn id = some entry → view.emittedTxn id = some entry ∨
    P entry.tx ∧ entry.tx.transactionID = id ∧ id ∈ ids
  /-- What was inserted was not there before. -/
  inserted : ∀ id ∈ ids, view.emittedTxn id = none ∧ view'.emittedTxn id ≠ none
  rules : view'.rules = view.rules
  isOpen : view'.isOpen = view.isOpen
  imports : view'.imports = view.imports

namespace Emits

variable {P : STTx → Prop} {view₁ : View} {ids ids' : List UInt256}

theorem of_unmoved (hs : Unmoved view view') : Emits P view view' [] where
  kept id entry h := by rw [hs.emittedTxn]; exact h
  holds page id h := by rw [hs.emittedDir]; exact h
  new id entry h := by rw [hs.emittedTxn] at h; exact .inl h
  inserted _ h := absurd h not_mem_nil
  rules := hs.rules
  isOpen := hs.isOpen
  imports := hs.imports

theorem refl : Emits P view view [] := of_unmoved .refl

theorem single {tx : STTx} {capped preserveOrder : Bool} {dir : Directory} {page : Nat} (htx : P tx)
    (hn : view.emittedTxn tx.transactionID = none)
    (hadd : view.emittedDir.dirAdd capped preserveOrder tx.transactionID = .ok (some (page, dir))) :
    Emits P view (view.setEmission dir tx.transactionID (some ⟨tx, page⟩))
      [tx.transactionID] where
  kept id entry h := by
    have hid : id ≠ tx.transactionID := by
      rintro rfl
      rw [hn] at h
      cases h
    rw [View.emittedTxn_setEmission_of_ne _ _ _ hid]
    exact h
  holds page' id h := (Directory.holds_dirAdd hadd).mpr (.inr h)
  new id entry h := by
    by_cases hid : id = tx.transactionID
    · subst hid
      rw [View.emittedTxn_setEmission] at h
      cases h
      exact .inr ⟨htx, rfl, mem_singleton_self _⟩
    · rw [View.emittedTxn_setEmission_of_ne _ _ _ hid] at h
      exact .inl h
  inserted id h := by
    rw [mem_singleton] at h
    subst h
    refine ⟨hn, ?_⟩
    rw [View.emittedTxn_setEmission]
    exact some_ne_none _
  rules := rfl
  isOpen := rfl
  imports := rfl

theorem trans (h : Emits P view view₁ ids) (h' : Emits P view₁ view' ids') :
    Emits P view view' (ids ++ ids') where
  kept id entry hent := h'.kept id entry (h.kept id entry hent)
  holds page id hh := h'.holds page id (h.holds page id hh)
  new id entry hent := by
    rcases h'.new id entry hent with hent | ⟨htx, hid, hmem⟩
    · rcases h.new id entry hent with hent | ⟨htx, hid, hmem⟩
      · exact .inl hent
      · exact .inr ⟨htx, hid, mem_append_left _ hmem⟩
    · exact .inr ⟨htx, hid, mem_append_right _ hmem⟩
  inserted id hid := by
    rcases mem_append.mp hid with hid | hid
    · obtain ⟨hbef, haft⟩ := h.inserted id hid
      obtain ⟨entry, hent⟩ := ne_none_iff_exists'.mp haft
      refine ⟨hbef, ?_⟩
      rw [h'.kept id entry hent]
      exact some_ne_none _
    · obtain ⟨hbef, haft⟩ := h'.inserted id hid
      refine ⟨?_, haft⟩
      by_contra hsome
      obtain ⟨entry, hent⟩ := ne_none_iff_exists'.mp hsome
      rw [h.kept id entry hent] at hbef
      cases hbef
  rules := h'.rules.trans h.rules
  isOpen := h'.isOpen.trans h.isOpen
  imports := h'.imports.trans h.imports

theorem mem_of_new (h : Emits P view view' ids) {id : UInt256} (hn : view.emittedTxn id = none)
    (hsome : view'.emittedTxn id ≠ none) : id ∈ ids := by
  obtain ⟨entry, hent⟩ := ne_none_iff_exists'.mp hsome
  rcases h.new id entry hent with hold | hnew
  · rw [hn] at hold
    cases hold
  · exact hnew.2.2

end Emits

/-- **One round of `finalizeHookResult`** goes on if there is an entry, inserts one, or finds the
directory full. -/
theorem insertEmissions_cons {tx : STTx}
    (h : insertEmissions (tx :: txs) view = .ok (result, view', emissionTxnid)) :
    (view.emittedTxn tx.transactionID ≠ none ∧
      insertEmissions txs view = .ok (result, view', emissionTxnid)) ∨
    (∃ emitDetails page dir emissionTxnid₁, view.emittedTxn tx.transactionID = none ∧
      tx.emitDetails = some emitDetails ∧
      view.emittedDir.dirAdd (!view.rules.enabled .fixPageCap) false tx.transactionID
        = .ok (some (page, dir)) ∧
      insertEmissions txs (view.setEmission dir tx.transactionID (some ⟨tx, page⟩))
        = .ok (result, view', emissionTxnid₁) ∧
      emissionTxnid = (tx.transactionID, emitDetails.emitNonce) :: emissionTxnid₁) ∨
    (result = .tecDIR_FULL ∧ view' = view ∧ emissionTxnid = []) := by
  unfold insertEmissions at h
  split at h
  next hsome =>
    refine .inl ⟨?_, h⟩
    rw [hsome]
    exact some_ne_none _
  · cases h
  rename_i emitDetails hn hdet
  obtain ⟨added, hadd, h⟩ := bind_eq_ok.mp h
  split at h
  · cases h
    exact .inr (.inr ⟨rfl, rfl, rfl⟩)
  rename_i page dir
  obtain ⟨⟨result₁, view₁, emissionTxnid₁⟩, hrest, h⟩ := bind_eq_ok.mp h
  cases h
  exact .inr (.inl ⟨emitDetails, page, dir, emissionTxnid₁, hn, hdet, hadd, hrest, rfl⟩)

theorem emits_insertEmissions (htxs : ∀ tx ∈ txs, P tx)
    (h : insertEmissions txs view = .ok (result, view', emissionTxnid)) :
    Emits P view view' (emissionTxnid.map Prod.fst) ∧
      (result = .tesSUCCESS → ∀ tx ∈ txs, view'.emittedTxn tx.transactionID ≠ none) := by
  induction txs generalizing view emissionTxnid with
  | nil =>
    cases h
    exact ⟨.refl, fun _ tx htx => absurd htx not_mem_nil⟩
  | cons tx txs ih =>
    rw [forall_mem_cons] at htxs
    rcases insertEmissions_cons h with ⟨hsome, hrest⟩ |
      ⟨emitDetails, page, dir, emissionTxnid₁, hn, -, hadd, hrest, rfl⟩ | ⟨rfl, rfl, rfl⟩
    · obtain ⟨hemi, hall⟩ := ih htxs.2 hrest
      refine ⟨hemi, fun hok => forall_mem_cons.mpr ⟨?_, hall hok⟩⟩
      obtain ⟨entry, hent⟩ := ne_none_iff_exists'.mp hsome
      rw [hemi.kept _ _ hent]
      exact some_ne_none _
    · obtain ⟨hemi, hall⟩ := ih htxs.2 hrest
      have htra := (Emits.single htxs.1 hn hadd).trans hemi
      refine ⟨htra, fun hok => forall_mem_cons.mpr ⟨?_, hall hok⟩⟩
      exact (htra.inserted _ mem_cons_self).2
    · refine ⟨.refl, ?_⟩
      rintro ⟨⟩

/-- **What `finalizeHookResult` does**: it emits the transactions, and on a closed ledger, if it
does not fail, all of them have an entry. -/
theorem emits_finalizeHookResult {hookResult : HookResult} {doEmit : Bool}
    (htxs : ∀ tx ∈ hookResult.emittedTxn, P tx)
    (h : finalizeHookResult hookResult view doEmit = .ok (result, view', emissionTxnid)) :
    Emits P view view' (emissionTxnid.map Prod.fst) ∧
      (view.isOpen = false → doEmit = true → result = .tesSUCCESS →
        ∀ tx ∈ hookResult.emittedTxn, view'.emittedTxn tx.transactionID ≠ none) := by
  unfold finalizeHookResult at h
  split at h
  next hskip =>
    cases h
    refine ⟨.refl, fun hclo hemit => ?_⟩
    rcases hskip with hopen | hno
    · rw [hclo] at hopen
      cases hopen
    · rw [hemit] at hno
      cases hno
  · obtain ⟨hemi, hall⟩ := emits_insertEmissions htxs h
    exact ⟨hemi, fun _ _ => hall⟩

/-- **What `eraseEmission` can do**: nothing if the directory does not hold the entry where it says,
or else remove it. -/
theorem eraseEmission_cases {id : UInt256} (h : eraseEmission id view = .ok (result, view')) :
    (view' = view ∧ ∀ entry, view.emittedTxn id = some entry →
      ¬ view.emittedDir.Holds entry.ownerNode id) ∨
    ∃ dir, view' = view.setEmission dir id none := by
  unfold eraseEmission at h
  split at h
  next hn =>
    cases h
    refine .inl ⟨rfl, fun entry hent => ?_⟩
    rw [hn] at hent
    cases hent
  next entry hent =>
    obtain ⟨⟨found, dir⟩, hrem, h⟩ := bind_eq_ok.mp h
    obtain ⟨hfou, -⟩ := Directory.holds_dirRemove hrem
    dsimp only at h
    split at h
    next hmis =>
      cases h
      refine .inl ⟨rfl, fun entry' hent' hh => ?_⟩
      rw [hent] at hent'
      cases hent'
      rw [hfou.mpr hh] at hmis
      cases hmis
    · cases h
      exact .inr ⟨dir, rfl⟩

end

end Xahau.Hook
