import Xahau.Transactor.Supply

/-! # What was burned is credited once

The account root keeps the sequence number of the last imported inner transaction. Other transactors
do not write this number, and a root that has one is not deleted. So the sequence numbers that are
credited to an account increase over every run. -/

namespace Xahau.Transactor

open Checked Function Hook List Option

/-- The number of the last inner transaction credited to an account. -/
def lastImport (view : View) (acc : AccountID) : Option Nat :=
  (view.account acc).bind AccountRoot.importSequence

/-- Every account that has credited something knows what it credited last. -/
def KeepsImports (view view' : View) : Prop :=
  ∀ acc n, lastImport view acc = some n → lastImport view' acc = some n

section

variable {env : Env} {tx : STTx} {before view view₁ view' : View} {acc : AccountID}
  {sle : AccountRoot} {result result' : Ter} {outcome : TxOutcome}

theorem lastImport_eq (view : View) (acc : AccountID) :
    lastImport view acc = (view.imports acc).join := by
  unfold lastImport View.imports importsOf
  cases view.account acc with
  | none => rfl
  | some sle => rfl

theorem lastImport_of_imports (h : view'.imports = view.imports) :
    lastImport view' = lastImport view := by
  funext acc
  rw [lastImport_eq, lastImport_eq, h]

theorem lastImport_setAccount :
    lastImport (view.setAccount acc sle) = update (lastImport view) acc sle.importSequence := by
  funext acc'
  by_cases hacc : acc' = acc
  · subst hacc
    rw [update_self]
    show (update view.account acc' (some sle) acc').bind _ = _
    rw [update_self]
    rfl
  · rw [update_of_ne hacc]
    show (update view.account acc (some sle) acc').bind _ = _
    rw [update_of_ne hacc]
    rfl

namespace KeepsImports

theorem refl : KeepsImports view view := fun _ _ => id

theorem trans (h : KeepsImports view view₁) (h' : KeepsImports view₁ view') :
    KeepsImports view view' :=
  fun acc n hn => h' acc n (h acc n hn)

theorem of_imports (h : view'.imports = view.imports) : KeepsImports view view' := by
  intro acc n hn
  rw [lastImport_of_imports h, hn]

theorem setAccount
    (h : ∀ sle', view.account acc = some sle' → sle.importSequence = sle'.importSequence) :
    KeepsImports view (view.setAccount acc sle) := by
  intro acc' n hn
  rw [lastImport_setAccount]
  by_cases hacc : acc' = acc
  · subst hacc
    rw [update_self]
    obtain ⟨sle', hsle', hseq⟩ := bind_eq_some_iff.mp hn
    rw [h sle' hsle', hseq]
  · rw [update_of_ne hacc]
    exact hn

theorem stepwise : Stepwise KeepsImports := ⟨refl, trans, setAccount, fun _ _ _ => of_imports rfl⟩

end KeepsImports

/-! ## Imports -/

/-- The sequence number of the inner transaction of an import. -/
def innerSequence (env : Import.Env) : Option Nat :=
  (env.xpop.bind Import.Xpop.inner).bind Import.InnerTxn.sequence

/-- **An import increases the import sequence of its account** to that of the inner transaction. -/
theorem lastImport_importDoApply {importEnv : Import.Env}
    (h : Import.doApply importEnv tx view = .ok view') :
    ∃ n, innerSequence importEnv = some n ∧
      lastImport view' = update (lastImport view) tx.account (some n) ∧
      ∀ m, lastImport view tx.account = some m → m < n := by
  obtain ⟨xpop, stpTrans, n, burn, code, _, hxpop, hinn, hsequ, -, -, hpast, hcre⟩ :=
    importDoApply_cases h
  obtain ⟨sle, view₂, view₃, hcount, hseq, -, hkeys, rfl⟩ := creditAccount_cases hcre
  refine ⟨n, ?_, ?_, fun m hm => ?_⟩
  · unfold innerSequence
    rw [hxpop, bind_some, hinn, bind_some, hsequ]
  · show lastImport view₃ = _
    rw [lastImport_of_imports hkeys.conserves.imports, lastImport_setAccount, hseq,
      lastImport_of_imports hcount.conserves.imports]
    rfl
  · obtain ⟨sle', hsle', hm⟩ := bind_eq_some_iff.mp hm
    have hlt := hpast sle' hsle'
    rwa [hm] at hlt

theorem failsWith_importDoApply (importEnv : Import.Env) (tx : STTx) (view : View) :
    FailsWith (fun result => result.isTesSuccess = false) (Import.doApply importEnv tx view) := by
  refine .bind (.failIf rfl) fun _ _ => ?_
  split
  · refine .bind ?_ fun view₁ _ => ?_
    · unfold Import.updateVLSeq
      split
      · exact .ok
      split
      · exact .error rfl
      · split <;> exact .ok
    · split
      · refine .bind (.failIf rfl) fun _ _ => .bind (.failIf rfl) fun _ _ => ?_
        refine .bind (.failIf rfl) fun _ _ => ?_
        exact .bind (.failIf rfl) fun _ _ => .ok
      · exact .error rfl
  · exact .error rfl

/-- **Transactors other than imports leave the import sequences**, unless an account without one is
deleted. -/
theorem keepsImports_doApply (h : doApply env tx view = .ok (result, view'))
    (himp : tx.txnType ≠ ttImport)
    (hdel : tx.txnType = ttAccountDelete → lastImport view tx.account = none) :
    KeepsImports view view' := by
  unfold doApply at h
  rw [if_neg himp] at h
  split at h
  · exact .of_imports (hookWrites_eraseEmission h).sameFunds.conserves.imports
  split at h
  · rcases returned_cases (Except.ok.inj h) with ⟨-, rfl⟩ | hx
    · exact .refl
    · exact KeepsImports.stepwise.genesisMint hx
  · split at h
    · cases h
      split
      · exact KeepsImports.stepwise.activateXahauGenesis _ _
      · exact .refl
    · cases h
      -- a root that has an import sequence is not the one that is deleted
      intro acc n hn
      obtain ⟨sle, hsle, hseq⟩ := bind_eq_some_iff.mp hn
      show (if acc ∈ env.touched.accounts then _ else view.account acc).bind _ = _
      split
      · rw [hsle]
        cases (env.doApply view).2.account acc with
        | some sle' => exact hseq
        | none =>
          have hnot : ¬ (tx.txnType = ttAccountDelete ∧ acc = tx.account) := by
            rintro ⟨htype, rfl⟩
            rw [hdel htype] at hn
            cases hn
          show (if tx.txnType = ttAccountDelete ∧ acc = tx.account then none else some sle).bind _
            = _
          rw [if_neg hnot]
          exact hseq
      · exact hn

theorem lastImport_of_deletePreclaim (hena : before.rules.enabled .featureImport = true)
    (h : (preclaim env before tx).isTesSuccess = true) (htype : tx.txnType = ttAccountDelete) :
    lastImport before tx.account = none := by
  have hnotImport : ¬ tx.txnType = ttImport := by
    rw [htype]
    decide
  have hnotMint : ¬ tx.txnType = ttGenesisMint := by
    rw [htype]
    decide
  unfold preclaim at h
  rw [if_neg hnotImport, if_neg hnotMint, if_pos htype] at h
  unfold DeleteAccount.preclaim at h
  dsimp only at h
  split at h
  · cases h
  split at h
  · cases h
  split at h
  · cases h
  split at h
  · cases h
  rename_i sleAccount hsle
  split at h
  · cases h
  rename_i hblo
  by_contra hne
  obtain ⟨n, hn⟩ := ne_none_iff_exists'.mp hne
  obtain ⟨sle, hsle', hseq⟩ := bind_eq_some_iff.mp hn
  rw [hsle] at hsle'
  cases hsle'
  refine hblo ⟨hena, ?_⟩
  rw [hseq]
  exact nofun

theorem importDoApply_of_doApply (htype : tx.txnType = ttImport)
    (hok : result.isTesSuccess = true) (h : doApply env tx view = .ok (result, view')) :
    Import.doApply env.importEnv tx view = .ok view' := by
  have hnotFailure : ¬ tx.txnType = ttEmitFailure := by
    rw [htype]
    decide
  unfold doApply at h
  rw [if_neg hnotFailure, if_pos htype] at h
  rcases returned_cases (Except.ok.inj h) with ⟨hx, -⟩ | hx
  · rw [failsWith_importDoApply env.importEnv tx view result hx] at hok
    cases hok
  · exact hx

/-! ## Applied transactions -/

theorem view_of_refused (h : applyTransaction env tx before = .ok outcome) :
    outcome.applied = true ∨ (outcome.own = false ∧ outcome.view = before) := by
  unfold applyTransaction at h
  dsimp only at h
  split at h
  · cases h
    exact .inr ⟨rfl, rfl⟩
  split at h
  · unfold operator at h
    split at h
    · cases h
      exact .inr ⟨rfl, rfl⟩
    obtain ⟨strong, -, h⟩ := bind_eq_ok.mp h
    obtain ⟨⟨result, view⟩, -, h⟩ := bind_eq_ok.mp h
    dsimp only at h
    split at h
    · cases h
      exact .inr ⟨rfl, rfl⟩
    obtain ⟨_, -, h⟩ := bind_eq_ok.mp h
    cases h
    exact .inl rfl
  · cases h
    exact .inr ⟨rfl, rfl⟩

/-- **A transaction applied with its own changes** has passed the checks, and concludes what its
transactor did after the fee. -/
theorem own_applied (h : applyTransaction env tx before = .ok outcome) (hown : outcome.own = true) :
    (preclaim env before tx).isTesSuccess = true ∧
      ∃ view result view' aawMap ids, Charged tx before view ∧ result.isTesSuccess = true ∧
        doApply env tx view = .ok (result, view') ∧
        conclude env tx aawMap result ⟨view', true, tx.fee⟩
          = .ok (outcome.result, outcome.view, ids) := by
  have happ : outcome.applied = true := by
    rcases view_of_refused h with happ | ⟨hnot, -⟩
    · exact happ
    · rw [hown] at hnot
      cases hnot
  obtain ⟨hpref, hope⟩ := operator_of_applyTransaction h happ
  obtain ⟨strong, result, view', result', settled, ids, hstr, happl, hsett, hcon, hset⟩ :=
    operator_applied hope happ
  obtain ⟨hfun, hpas⟩ := sameFunds_strong hstr
  rcases settle_cases hsett with ⟨rfl, hok, rfl, -⟩ | hres
  · split at happl
    next hagr =>
      have hpre := hpas hagr
      obtain ⟨view, hchgd, hdo⟩ := charged_of_apply hfun (fee_of_checks hpref hpre) happl hok
      exact ⟨preclaim_of_invokePreclaim hpre, view, result', view', strong.aawMap, ids, hchgd,
        hok, hdo, hcon⟩
    next hrej =>
      cases happl
      exact absurd hok hrej
  · rw [hset, hres.own] at hown
    cases hown

variable {settled : Settled}

theorem imports_of_conclude {aawMap : List (AccountID × List UInt256)}
    {ids : List UInt256} (h : conclude env tx aawMap result settled = .ok (result', view, ids)) :
    view.imports = settled.view.imports := by
  obtain ⟨view₁, hcon, rfl⟩ := conserves_conclude h
  exact hcon.imports

theorem ResetView.imports (h : ResetView env tx before settled) :
    settled.view.imports = before.imports := by
  have hres := (unmoved_reset tx tx.fee before).imports
  rcases h.view with heq | ⟨result, heq⟩
  · rw [heq, hres]
  · rw [heq, (sameFunds_removeOffers ..).conserves.imports, hres]

theorem imports_of_not_own (h : applyTransaction env tx before = .ok outcome)
    (hown : outcome.own = false) : outcome.view.imports = before.imports := by
  rcases view_of_refused h with happ | ⟨-, hview⟩
  · obtain ⟨-, hope⟩ := operator_of_applyTransaction h happ
    obtain ⟨strong, result, view, result', settled, ids, -, -, hsett, hcon, hset⟩ :=
      operator_applied hope happ
    rcases settle_cases hsett with ⟨rfl, -⟩ | hres
    · rw [hset] at hown
      cases hown
    · exact (imports_of_conclude hcon).trans hres.imports
  · rw [hview]

end

/-! ## Runs -/

/-- The account credited by an event, and the number of the inner transaction. -/
def Event.credited : Event → Option (AccountID × Nat)
  | .apply env tx outcome =>
    if outcome.own = true ∧ tx.txnType = ttImport then
      (innerSequence env.importEnv).map fun n => (tx.account, n)
    else none
  | .nextLedger .. => none

theorem Event.credited_apply (env : Env) (tx : STTx) (outcome : TxOutcome) :
    (Event.apply env tx outcome).credited =
      if outcome.own = true ∧ tx.txnType = ttImport then
        (innerSequence env.importEnv).map fun n => (tx.account, n)
      else none :=
  rfl

/-- One event in a ledger in which imports are enabled. -/
def ImportStep (view : View) : Event → View → Prop
  | .apply env tx outcome, view' =>
    view.rules.enabled .featureImport = true ∧ applyTransaction env tx view = .ok outcome ∧
      view' = outcome.view
  | .nextLedger rules fees seq, view' =>
    ∃ isOpen parentCloseTime,
      view' = { view with rules, fees, seq, isOpen, parentCloseTime, txs := [] }

section

variable {env : Env} {tx : STTx} {before view view' start : View} {acc : AccountID}
  {outcome : TxOutcome} {e : Event} {es : List Event}

theorem spec_of_import {result : Ter} (hown : outcome.own = true) (htype : tx.txnType = ttImport)
    (hok : result.isTesSuccess = true) (h : doApply env tx view = .ok (result, view')) :
    (∀ acc n, (Event.apply env tx outcome).credited = some (acc, n) →
      lastImport view' acc = some n ∧ ∀ m, lastImport view acc = some m → m < n) ∧
    ∀ acc m, (∀ n, (Event.apply env tx outcome).credited ≠ some (acc, n)) →
      lastImport view acc = some m → lastImport view' acc = some m := by
  obtain ⟨n, hn, hupd, hlt⟩ := lastImport_importDoApply (importDoApply_of_doApply htype hok h)
  have hcre : (Event.apply env tx outcome).credited = some (tx.account, n) := by
    rw [Event.credited_apply, if_pos ⟨hown, htype⟩, hn, map_some]
  rw [hcre, hupd]
  refine ⟨?_, fun acc m hoth hm => ?_⟩
  · rintro acc n ⟨⟩
    exact ⟨update_self .., hlt⟩
  rw [update_of_ne, hm]
  rintro rfl
  exact hoth n rfl

/-- **An event that credits increases the import sequence of its account**; others stay. -/
theorem importStep_spec (h : ImportStep view e view') :
    (∀ acc n, e.credited = some (acc, n) →
      lastImport view' acc = some n ∧ ∀ m, lastImport view acc = some m → m < n) ∧
    ∀ acc m, (∀ n, e.credited ≠ some (acc, n)) → lastImport view acc = some m →
      lastImport view' acc = some m := by
  cases e with
  | nextLedger rules fees seq =>
    obtain ⟨isOpen, parentCloseTime, rfl⟩ := h
    exact ⟨fun _ _ hcre => (nomatch hcre), fun _ _ _ hm => hm⟩
  | apply env tx outcome =>
    obtain ⟨hena, h, rfl⟩ := h
    by_cases hown : outcome.own = true
    · obtain ⟨hpre, view₁, result, view₂, aawMap, ids, hchgd, hok, hdo, hcon⟩ := own_applied h hown
      rw [lastImport_of_imports (imports_of_conclude hcon), ← lastImport_of_imports hchgd.imports]
      by_cases htype : tx.txnType = ttImport
      · exact spec_of_import hown htype hok hdo
      have hn : (Event.apply env tx outcome).credited = none := if_neg fun hcred => htype hcred.2
      refine ⟨fun acc n hcre => ?_, fun acc m _ => keepsImports_doApply hdo htype ?_ acc m⟩
      · rw [hn] at hcre
        cases hcre
      intro hdel
      rw [lastImport_of_imports hchgd.imports]
      exact lastImport_of_deletePreclaim hena hpre hdel
    · rw [Bool.not_eq_true] at hown
      have hn : (Event.apply env tx outcome).credited = none := by
        rw [Event.credited_apply, hown]
        exact if_neg fun hcred => Bool.false_ne_true hcred.1
      rw [lastImport_of_imports (imports_of_not_own h hown), hn]
      exact ⟨fun _ _ hcre => (nomatch hcre), fun _ _ _ hm => hm⟩

/-- After the events `es`, the numbers credited to an account increase, up to the last one. -/
structure ImportInv (es : List Event) (view : View) : Prop where
  last : ∀ acc n, (acc, n) ∈ es.filterMap Event.credited →
    ∃ m, lastImport view acc = some m ∧ n ≤ m
  increasing : (es.filterMap Event.credited).Pairwise fun p q => p.1 = q.1 → p.2 < q.2

theorem importInv_of_run (h : Run ImportStep start es view) : ImportInv es view := by
  apply h.invariant ImportInv
  · exact ⟨nofun, List.Pairwise.nil⟩
  intro es view e view' hinv hstep
  obtain ⟨hcred, hkeep⟩ := importStep_spec hstep
  rcases hcre : e.credited with _ | ⟨acc, n⟩
  · -- nothing is credited
    rw [hcre] at hkeep
    have hs : (es ++ [e]).filterMap Event.credited = es.filterMap Event.credited := by
      rw [filterMap_append, filterMap_cons_none hcre, filterMap_nil, append_nil]
    refine ⟨fun acc n hmem => ?_, ?_⟩
    · rw [hs] at hmem
      obtain ⟨m, hm, hle⟩ := hinv.last acc n hmem
      exact ⟨m, hkeep acc m (fun _ => some_ne_none _ |>.symm) hm, hle⟩
    · rw [hs]
      exact hinv.increasing
  · obtain ⟨hlast, hlt⟩ := hcred acc n hcre
    rw [hcre] at hkeep
    have happ : (es ++ [e]).filterMap Event.credited
        = es.filterMap Event.credited ++ [(acc, n)] := by
      rw [filterMap_append, filterMap_cons_some hcre, filterMap_nil]
    refine ⟨fun acc' n' hmem => ?_, ?_⟩
    · rw [happ, mem_append, mem_singleton] at hmem
      by_cases hacc : acc' = acc
      · subst hacc
        refine ⟨n, hlast, ?_⟩
        rcases hmem with hmem | heq
        · obtain ⟨m, hm, hle⟩ := hinv.last acc' n' hmem
          exact hle.trans (hlt m hm).le
        · exact (Prod.mk.inj heq).2.le
      · rcases hmem with hmem | heq
        · obtain ⟨m, hm, hle⟩ := hinv.last acc' n' hmem
          refine ⟨m, hkeep acc' m (fun k heq => hacc ?_) hm, hle⟩
          exact (Prod.mk.inj (Option.some.inj heq)).1.symm
        · exact absurd (Prod.mk.inj heq).1 hacc
    · rw [happ, pairwise_append]
      refine ⟨hinv.increasing, pairwise_singleton .., ?_⟩
      rintro ⟨acc', n'⟩ hmem q hq heq
      rw [mem_singleton.mp hq] at heq ⊢
      obtain ⟨m, hm, hle⟩ := hinv.last acc' n' hmem
      have heq' : acc' = acc := heq
      rw [heq'] at hm
      exact lt_of_le_of_lt hle (hlt m hm)

theorem creditDrops_mem {importEnv : Import.Env} {burn : Int} (hburn : 0 < burn) :
    0 ≤ Import.creditDrops importEnv view burn ∧ Import.creditDrops importEnv view burn ≤ burn := by
  unfold Import.creditDrops
  split
  · exact ⟨le_rfl, hburn.le⟩
  split
  · exact ⟨hburn.le, le_rfl⟩
  split
  · obtain ⟨y, hy0, hy1⟩ := importEnv.decline (Import.elapsedLedgers view)
    have hburn' : (0 : ℚ) ≤ burn := by exact_mod_cast hburn.le
    refine ⟨Int.floor_nonneg.mpr (mul_nonneg hburn' hy0), Int.floor_le_iff.mpr ?_⟩
    have hle : (burn : ℚ) * y ≤ burn := mul_le_of_le_one_right hburn' hy1
    linarith
  · exact ⟨le_rfl, hburn.le⟩

/-- The account is credited with a part of the inner fee, and the starting bonus if it is created;
the header changes likewise. -/
def Accounted (env : Env) (tx : STTx) (before : View) (outcome : TxOutcome) : Prop :=
  ∃ inner burn credited view view' aawMap result ids,
    env.importEnv.xpop.bind Import.Xpop.inner = some inner ∧ inner.fee = some (.xrp burn) ∧
    Charged tx before view ∧ Import.doApply env.importEnv tx view = .ok view' ∧
    conclude env tx aawMap result ⟨view', true, tx.fee⟩ = .ok (outcome.result, outcome.view, ids) ∧
    (0 ≤ credited ∧ credited ≤ burn) ∧
    rootDrops (view'.account tx.account) - rootDrops (view.account tx.account) =
      credited + (if before.account tx.account = none then Import.computeStartingBonus view else 0) ∧
    view'.drops - view.drops =
      rootDrops (view'.account tx.account) - rootDrops (view.account tx.account)

theorem Charged.account_eq_none (h : Charged tx before view) :
    view.account acc = none ↔ before.account acc = none := by
  have himp := congrFun h.imports acc
  unfold View.imports importsOf at himp
  rw [← map_eq_none_iff, himp, map_eq_none_iff]

theorem accounted_of_credited (h : applyTransaction env tx before = .ok outcome)
    (hcre : (Event.apply env tx outcome).credited ≠ none) : Accounted env tx before outcome := by
  rw [Event.credited_apply] at hcre
  have himp : outcome.own = true ∧ tx.txnType = ttImport := by
    by_contra hnot
    exact hcre (if_neg hnot)
  obtain ⟨-, view, result, view', aawMap, ids, hchgd, hok, hdo, hcon⟩ := own_applied h himp.1
  have happ := importDoApply_of_doApply himp.2 hok hdo
  obtain ⟨xpop, inner, n, burn, code, importVLSeq, hxpop, hinn, -, hfee, hburn, -, hcred⟩ :=
    importDoApply_cases happ
  obtain ⟨sle, view₂, view₃, hcount, -, hbal, hkeys, heq⟩ := creditAccount_cases hcred
  have hroot : rootDrops (view'.account tx.account) = sle.balance := by
    rw [heq]
    rw [hkeys.rootDrops]
    show rootDrops (update view₂.account tx.account (some sle) tx.account) = _
    rw [update_self, rootDrops_some]
  refine ⟨inner, burn, Import.creditDrops env.importEnv { view with importVLSeq } burn, view, view',
    aawMap, result, ids, ?_, hfee, hchgd, happ, hcon, creditDrops_mem hburn, ?_, ?_⟩
  · rw [hxpop, bind_some, hinn]
  · rw [hroot, hbal]
    unfold Import.startBal
    cases hacc : view.account tx.account with
    | none =>
      rw [if_pos (hchgd.account_eq_none.mp hacc), rootDrops_none]
      unfold Import.computeStartingBonus
      ring
    | some root =>
      rw [if_neg, rootDrops_some]
      · ring
      · rw [← hchgd.account_eq_none, hacc]
        exact nofun
  · rw [hroot, heq]
    rw [hkeys.drops]
    show view₂.drops + _ - view.drops = _
    rw [hcount.drops]
    ring

/-- **What was burned is credited once**: over every run, the numbers credited to an account
increase, so that none is credited twice, and whatever is credited next is accounted for. -/
theorem burned_credited_once (start view : View) (es : List Event)
    (hrun : Run ImportStep start es view) :
    (es.filterMap Event.credited).Nodup ∧
      (∀ acc, (((es.filterMap Event.credited).filter fun p => p.1 = acc).map Prod.snd).Pairwise
        (· < ·)) ∧
      ∀ env tx outcome, applyTransaction env tx view = .ok outcome →
        (Event.apply env tx outcome).credited ≠ none → Accounted env tx view outcome := by
  have hinv := importInv_of_run hrun
  refine ⟨hinv.increasing.imp ?_, fun acc => ?_, fun env tx outcome => accounted_of_credited⟩
  · rintro p q hlt rfl
    exact lt_irrefl _ (hlt rfl)
  rw [pairwise_map]
  refine (hinv.increasing.filter _).imp_of_mem ?_
  intro p q hp hq hlt
  apply hlt
  rw [of_decide_eq_true (mem_filter.mp hp).2, of_decide_eq_true (mem_filter.mp hq).2]

end

/-! ## Two imports -/

/-- A ledger without accounts, in which what was burned is credited. -/
def importLedger : View :=
  { emptyView collectRegistry with
    rules := ⟨fun feature => decide (feature ≠ .featureZeroB2M)⟩
    account := fun _ => none }

def importer : AccountID := .ofByte 77

/-- A proof that the importer has burned drops with the given transaction. -/
def burnedEnv (sequence : Nat) (burn : Int) : Env :=
  { acceptingEnv [] [] with
    importEnv :=
      { noImport with
        xpop := some {
          vlInfo := some (1, [])
          inner := some {
            account := importer
            txnType := 3
            sequence := some sequence
            fee := some (.xrp burn)
            transactionResult := some 0 }
          publicKey := "ED" }
        importVLKeys := ["ED"] } }

def importTx (id : UInt8) : STTx where
  transactionID := .ofByte id
  txnType := ttImport
  account := importer
  sequence := 0

/-- The first import creates the account with a bonus, the second gets none. -/
theorem two_imports_credited :
    ∃ outcome outcome', Run ImportStep importLedger
        [.apply (burnedEnv 5 100) (importTx 1) outcome, .apply (burnedEnv 8 30) (importTx 2) outcome']
        outcome'.view ∧
      (rootDrops (outcome.view.account importer) = 100 + Import.computeStartingBonus importLedger ∧
        rootDrops (outcome'.view.account importer)
          = 130 + Import.computeStartingBonus importLedger) ∧
      ([(importer, 5), (importer, 8)] : List (AccountID × Nat)).Nodup := by
  have hrun : ∃ outcome,
      applyTransaction (burnedEnv 5 100) (importTx 1) importLedger = .ok outcome ∧
      (outcome.view.rules.enabled .featureImport = true ∧ outcome.own = true ∧
        rootDrops (outcome.view.account importer) = 100 + Import.computeStartingBonus importLedger ∧
        ∃ outcome', applyTransaction (burnedEnv 8 30) (importTx 2) outcome.view = .ok outcome' ∧
          (outcome'.own = true ∧ rootDrops (outcome'.view.account importer)
            = 130 + Import.computeStartingBonus importLedger)) := by
    decide +kernel
  obtain ⟨outcome, h, hrules, hown, hbalance, outcome', h', hown', hbalance'⟩ := hrun
  have hfirst : ImportStep importLedger (.apply (burnedEnv 5 100) (importTx 1) outcome) outcome.view :=
    ⟨by decide, h, rfl⟩
  have hall : Run ImportStep importLedger
      [.apply (burnedEnv 5 100) (importTx 1) outcome,
        .apply (burnedEnv 8 30) (importTx 2) outcome'] outcome'.view :=
    (Run.single hfirst).snoc ⟨hrules, h', rfl⟩
  refine ⟨outcome, outcome', hall, ⟨hbalance, hbalance'⟩, ?_⟩
  have hnodup := (burned_credited_once _ _ _ hall).1
  have hlist : ([.apply (burnedEnv 5 100) (importTx 1) outcome,
        .apply (burnedEnv 8 30) (importTx 2) outcome'] : List Event).filterMap Event.credited
      = [(importer, 5), (importer, 8)] := by
    simp [Event.credited_apply, hown, hown', innerSequence, burnedEnv, importTx]
  rwa [hlist] at hnodup

end Xahau.Transactor
