import Xahau.Transactor.Claimed
import Xahau.Transactor.Funds

/-! # The native supply is conserved

The total of drops in the header changes by as much as what is held of the native currency. The fee
is deducted from an account and destroyed in the header; an import, a genesis mint and the
activation of governance change both at once; other transactors are checked by `XRPNotCreated`,
before the balance rewards and the hooks that follow. -/

namespace Xahau.Transactor

open Checked Function Hook List Total XRPNotCreated

section

variable {env : Env} {tx : STTx} {before view view₁ view' : View} {acc : AccountID}
  {sle sle' : AccountRoot} {result result' : Ter}

/-! ## Fees -/

theorem sameFunds_consumeSeqProxy (hacc : view.account tx.account = some sle) :
    SameFunds view (consumeSeqProxy tx sle view).2 := by
  have hset : ∀ sle' : AccountRoot, sle'.held = sle.held →
      SameFunds view (view.setAccount tx.account sle') := fun sle' => .setAccount hacc
  unfold consumeSeqProxy
  split
  · exact .refl
  split
  · exact hset _ rfl
  split
  · have htic := hset
      { sle with ownerCount := confineOwnerCount sle.ownerCount (-1) } rfl
    exact ⟨htic.held, rfl, rfl, rfl, rfl, rfl, rfl⟩
  · exact .refl

theorem surplus_reset (tx : STTx) (fee : Int) (view : View) :
    surplus (reset tx fee view).2.1 = surplus view + (reset tx fee view).2.2 := by
  unfold reset
  split
  · exact (add_zero _).symm
  rename_i txnAcct hacc
  rw [(sameFunds_consumeSeqProxy (update_self ..)).conserves.surplus, surplus_setAccount,
    hacc, rootDrops_some]
  ring

theorem sameFunds_removeOffers (env : Env) (result : Ter) (view : View) :
    SameFunds view (removeOffers env result view) := by
  unfold removeOffers
  split
  · exact foldlRecOn _ _ .refl fun _ h _ _ => h.trans (.modifyAccount fun _ => rfl)
  · exact .refl

variable {importEnv : Import.Env} {stpTrans : Import.InnerTxn} {dropsAdded dropsAdded' : Int}
  {aawMap : List (AccountID × List UInt256)} {dests : List GenesisMint} {ids : List UInt256}
  {code : Nat} {settled : Settled} {strong : StrongPhase}

theorem ResetView.surplus (h : ResetView env tx before settled) :
    surplus settled.view = surplus before + settled.fee := by
  rw [h.fee, ← surplus_reset]
  rcases h.view with heq | ⟨result, heq⟩
  · rw [heq]
  · rw [heq]
    exact (sameFunds_removeOffers ..).conserves.surplus

/-- The ledger in which a transactor works: the fee was deducted. -/
structure Charged (tx : STTx) (before view : View) : Prop where
  surplus : surplus view = surplus before + tx.fee
  rootDrops : ∀ acc, acc ≠ tx.account →
    rootDrops (view.account acc) = rootDrops (before.account acc)
  escrow : view.escrow = before.escrow
  payChan : view.payChan = before.payChan
  drops : view.drops = before.drops
  rules : view.rules = before.rules
  imports : view.imports = before.imports

theorem Charged.of_sameFunds (h : SameFunds before view) (hfee : tx.fee = 0) :
    Charged tx before view := by
  refine ⟨?_, fun acc _ => h.rootDrops acc, h.escrow, h.payChan, h.drops, h.rules,
    h.conserves.imports⟩
  rw [h.conserves.surplus, hfee, add_zero]

theorem Charged.payFee (h : SameFunds before view) (hacc : view.account tx.account ≠ none) :
    Charged tx before (payFee tx view) := by
  unfold Transactor.payFee
  split
  next hn =>
    exact absurd hn hacc
  rename_i sle hsle
  refine ⟨?_, fun acc hne => ?_, h.escrow, h.payChan, h.drops, h.rules, ?_⟩
  · rw [surplus_setAccount, hsle, rootDrops_some, h.conserves.surplus]
    ring
  · rw [← h.rootDrops acc]
    show Transactor.rootDrops (update view.account tx.account _ acc) = _
    rw [update_of_ne hne]
  · rw [← h.conserves.imports]
    exact View.imports_setAccount hsle rfl

/-- **How a transactor comes to work**: the fee was deducted, if there is an account. -/
theorem charged_of_apply (hfun : SameFunds before view)
    (hfee : before.account tx.account = none → tx.fee = 0)
    (h : apply env tx view = .ok (result, view')) (hok : result.isTesSuccess = true) :
    ∃ view₁, Charged tx before view₁ ∧ doApply env tx view₁ = .ok (result, view') := by
  unfold apply at h
  split at h
  next hn =>
    exact ⟨view, .of_sameFunds hfun (hfee (hfun.account_eq_none.mp hn)), h⟩
  rename_i sle hacc
  have hcon : SameFunds view (consumeSeqProxy tx sle view).2 := sameFunds_consumeSeqProxy hacc
  generalize consumeSeqProxy tx sle view = consumed at h hcon
  obtain ⟨result₁, view₁⟩ := consumed
  dsimp only at h
  split at h
  next hfail =>
    cases h
    rw [hok] at hfail
    cases hfail
  · refine ⟨_, .payFee (hfun.trans hcon) ?_, h⟩
    intro hn
    rw [hcon.account_eq_none, hacc] at hn
    cases hn

/-! ## Imports -/

theorem sameFunds_importKeys (hacc : view.account tx.account = some sle) :
    SameFunds view (Import.importKeys importEnv tx stpTrans code sle view) := by
  obtain heq | ⟨id, sle', ownerCount, signers, hid, heq⟩ | heq :=
    importKeys_cases importEnv tx stpTrans code sle view
  · rw [heq]
    exact .refl
  · have hset : SameFunds view (view.setAccount id { sle' with ownerCount }) := .setAccount hid rfl
    rw [heq]
    exact ⟨hset.held, rfl, rfl, rfl, rfl, rfl, rfl⟩
  · rw [heq]
    refine .setAccount hacc ?_
    unfold Import.doRegularKey
    split <;> rfl

/-- **Crediting an account**: its root gets the import sequence and the balance, and the header the
difference. -/
theorem creditAccount_cases {importSequence : Nat} {burn : Int}
    (h : Import.creditAccount importEnv tx stpTrans code importSequence burn view = .ok view') :
    ∃ sle view₁ view₂, SameFunds view view₁ ∧ sle.importSequence = some importSequence ∧
      sle.balance = Import.startBal view tx.account + Import.creditDrops importEnv view burn ∧
      SameFunds (view₁.setAccount tx.account sle) view₂ ∧
      view' = { view₂ with
        drops := view₂.drops + (sle.balance - rootDrops (view.account tx.account)) } := by
  replace h := of_check h
  cases h
  refine ⟨Import.creditedRoot importEnv tx importSequence burn view,
    if decide (view.account tx.account = none) = true then Import.countAccount view else view,
    Import.importKeys importEnv tx stpTrans code _ (View.setAccount _ tx.account _),
    ?_, rfl, rfl, sameFunds_importKeys (update_self ..), ?_⟩
  · -- the new account is counted
    split
    · unfold Import.countAccount
      split
      · exact .refl
      · exact ⟨rfl, rfl, rfl, rfl, rfl, rfl, rfl⟩
    · exact .refl
  · generalize Import.creditedRoot .. = sle
    congr 2
    unfold Import.startBal
    cases view.account tx.account with
    | none => exact (sub_zero _).symm
    | some root => rfl

theorem surplus_importDoApply
    (h : Import.doApply importEnv tx view = .ok view') : surplus view' = surplus view := by
  obtain ⟨_, _, _, _, _, importVLSeq, -, -, -, -, -, -, hcre⟩ := importDoApply_cases h
  obtain ⟨sle, view₂, view₃, hcount, -, -, hkeys, rfl⟩ := creditAccount_cases hcre
  rw [surplus_drops, hkeys.conserves.surplus, surplus_setAccount, hcount.conserves.surplus,
    hcount.rootDrops, show surplus { view with importVLSeq } = surplus view from rfl]
  ring

/-! ## Mints -/

theorem surplus_mintAll (h : GenesisMint.mintAll dests view dropsAdded = .ok (view', dropsAdded')) :
    surplus view' + dropsAdded' = surplus view + dropsAdded := by
  induction dests generalizing view dropsAdded with
  | nil =>
    cases h
    rfl
  | cons dest dests ih =>
    rw [GenesisMint.mintAll, bind_eq_ok] at h
    obtain ⟨⟨view₁, dropsAdded₁⟩, hone, hrest⟩ := h
    obtain ⟨sle, rfl, rfl, -⟩ := mintTo_eq_ok hone
    rw [ih hrest, surplus_setAccount, rootDrops]
    ring

theorem drops_addDrops (h : 0 ≤ dropsAdded) :
    GenesisMint.addDrops view dropsAdded = { view with drops := view.drops + dropsAdded } := by
  unfold GenesisMint.addDrops
  split
  · rfl
  rename_i hnot
  have hzero : dropsAdded = 0 := le_antisymm (Int.not_lt.mp hnot) h
  rw [hzero, add_zero]

theorem sumMints_spec {mints mints' : AList fun _ : AccountID => GenesisMint.Mint}
    (h : GenesisMint.sumMints dests mints dropsAdded = .ok (mints', dropsAdded')) :
    (∀ dest ∈ dests, dest.amount ≠ some .issued) ∧
      dropsAdded' = dropsAdded + (dests.map fun dest => (dest.amount.map Amount.drops).getD 0).sum ∧
      ∀ acc, mints'.lookup acc ≠ none →
        mints.lookup acc ≠ none ∨ acc ∈ dests.map GenesisMint.destination := by
  induction dests generalizing mints dropsAdded with
  | nil =>
    cases h
    exact ⟨nofun, (add_zero _).symm, fun _ => .inl⟩
  | cons dest dests ih =>
    rw [GenesisMint.sumMints, bind_eq_ok] at h
    obtain ⟨_, hnat, h⟩ := h
    rw [failIf_eq_ok] at hnat
    obtain ⟨mint, -, h⟩ := bind_eq_ok.mp h
    obtain ⟨hall, hsum, hkeys⟩ := ih h
    refine ⟨forall_mem_cons.mpr ⟨hnat, hall⟩, ?_, fun acc hacc => ?_⟩
    · rw [hsum, map_cons, sum_cons]
      ring
    rw [map_cons, mem_cons]
    by_cases heq : acc = dest.destination
    · exact .inr (.inl heq)
    rcases hkeys acc hacc with hold | hmem
    · rw [AList.lookup_insert_ne heq] at hold
      exact .inl hold
    · exact .inr (.inr hmem)

theorem account_of_creditMints {mints : List (AccountID × GenesisMint.Mint)}
    (h : GenesisMint.creditMints mints view = .ok view') :
    view'.drops = view.drops ∧
      ∀ acc, acc ∉ mints.map Prod.fst → view'.account acc = view.account acc := by
  induction mints generalizing view with
  | nil =>
    cases h
    exact ⟨rfl, fun _ _ => rfl⟩
  | cons entry mints ih =>
    obtain ⟨id, mint⟩ := entry
    rw [GenesisMint.creditMints, bind_eq_ok] at h
    obtain ⟨sle, -, hrest⟩ := h
    obtain ⟨hdro, hoth⟩ := ih hrest
    refine ⟨hdro, fun acc hacc => ?_⟩
    rw [map_cons, mem_cons, not_or] at hacc
    rw [hoth acc hacc.2]
    exact update_of_ne hacc.1 ..

/-- **What a genesis mint does to the funds**: it adds to the header what it adds to accounts, or
all amounts, and changes the destinations. -/
theorem genesisMintDoApply_cases (h : GenesisMint.doApply tx view = .ok view') :
    view.rules.enabled .fixXahauV1 = false ∧ surplus view' = surplus view ∨
      ∃ added, dropsMinted tx = some added ∧ view'.drops = view.drops + added ∧
        ∀ acc, acc ∉ tx.genesisMints.map GenesisMint.destination →
          view'.account acc = view.account acc := by
  unfold GenesisMint.doApply at h
  split at h
  next hfix =>
    obtain ⟨⟨view₁, dropsAdded⟩, hmint, h⟩ := bind_eq_ok.mp h
    obtain ⟨_, hfits, h⟩ := bind_eq_ok.mp h
    rw [failIf_eq_ok, not_or] at hfits
    cases h
    have hsur := surplus_mintAll hmint
    refine .inl ⟨hfix, ?_⟩
    rw [drops_addDrops (Int.not_lt.mp hfits.1), surplus_drops]
    rw [add_zero] at hsur
    rw [← hsur]
    ring
  · obtain ⟨⟨mints, dropsAdded⟩, hsum, h⟩ := bind_eq_ok.mp h
    obtain ⟨hfits, h⟩ := of_failIf h
    rw [not_or] at hfits
    obtain ⟨view₁, hcre, h⟩ := bind_eq_ok.mp h
    cases h
    obtain ⟨hnat, hdro, hkeys⟩ := sumMints_spec hsum
    obtain ⟨hdrop, hoth⟩ := account_of_creditMints hcre
    rw [zero_add] at hdro
    refine .inr ⟨dropsAdded, ?_, ?_, fun acc hacc => ?_⟩
    · unfold dropsMinted
      rw [if_neg, hdro]
      rw [any_eq_true]
      rintro ⟨dest, hdest, hiss⟩
      exact hnat dest hdest (of_decide_eq_true hiss)
    · rw [drops_addDrops (Int.not_lt.mp hfits.1)]
      rw [hdrop]
    · rw [drops_addDrops (Int.not_lt.mp hfits.1)]
      refine hoth acc fun hmem => ?_
      simp only [map_map, mem_map, comp_apply] at hmem
      obtain ⟨entry, hent, rfl⟩ := hmem
      rw [mem_sortedEntries] at hent
      rcases hkeys entry.1 (by rw [hent]; exact Option.some_ne_none _) with hemp | hdest
      · rw [AList.lookup_empty] at hemp
        exact hemp rfl
      · exact hacc hdest

/-! ## Governance -/

theorem surplus_mint (state : View × Int) (entry : AccountID × Int) :
    surplus (Change.mint state entry).1 - (Change.mint state entry).2
      = surplus state.1 - state.2 := by
  unfold Change.mint
  dsimp only
  split
  next hacc =>
    rw [surplus_setAccount, hacc, rootDrops_none]
    ring
  next sle hacc =>
    rw [surplus_setAccount, hacc, rootDrops_some]
    ring

theorem surplus_distribute {genesis : Change.Genesis}
    (hacc : view.account genesis.account = some sle) :
    surplus (Change.distribute genesis sle view).1 - (Change.distribute genesis sle view).2
      = surplus view := by
  have hfold : ∀ (entries : List (AccountID × Int)) (state : View × Int),
      surplus (entries.foldl Change.mint state).1 - (entries.foldl Change.mint state).2
        = surplus state.1 - state.2 := by
    intro entries
    induction entries with
    | nil => exact fun _ => rfl
    | cons entry entries ih =>
      intro state
      rw [foldl_cons, ih, surplus_mint]
  unfold Change.distribute
  rw [hfold, surplus_setAccount, hacc, rootDrops_some]
  ring

theorem surplus_activateXahauGenesis (genesis : Change.Genesis) (view : View) :
    surplus (Change.activateXahauGenesis genesis view) = surplus view := by
  have hbla : ∀ sb, SameFunds sb (Change.blackholeAll genesis sb) := by
    intro sb
    have hone : ∀ objects view acc,
        SameFunds view (View.modifyAccount (Change.blackhole objects) view acc) :=
      fun _ _ _ => .modifyAccount fun _ => rfl
    exact foldlRecOn _ _ (hone 2 sb genesis.account) fun _ h acc _ => h.trans (hone 1 _ acc)
  obtain heq | ⟨sle, registry, feeSettings, hacc, heq⟩ := activateXahauGenesis_cases genesis view
  · rw [heq]
  have hs := (hbla (Change.distribute genesis sle view).1).conserves.surplus
  have hdis : surplus (Change.distribute genesis sle view).1
      - (Change.distribute genesis sle view).2 = surplus view := surplus_distribute hacc
  rw [heq]
  generalize Change.blackholeAll genesis (Change.distribute genesis sle view).1 = sb at *
  show (sb.drops - _) - holdings sb = _
  unfold surplus at *
  linarith

/-! ## The invariant -/

/-- The entries that a transaction has not visited hold what they held. -/
structure Confined (env : Env) (tx : STTx) (before view : View) : Prop where
  account : ∀ acc, acc ∉ (visited env tx).accounts →
    rootDrops (view.account acc) = rootDrops (before.account acc)
  escrow : ∀ key, key ∉ (visited env tx).escrows → view.escrow key = before.escrow key
  payChan : ∀ key, key ∉ (visited env tx).payChans → view.payChan key = before.payChan key

theorem Confined.drops_visit (h : Confined env tx before view) :
    (visit (visited env tx) before view).drops = holdings view - holdings before := by
  have hacc := total_sub_total h.account
  have hesc := total_sub_total (f := fun key => escrowDrops (view.escrow key))
    (g := fun key => escrowDrops (before.escrow key)) (l := (visited env tx).escrows)
    fun key hkey => by rw [h.escrow key hkey]
  have hpayChan := total_sub_total (f := fun key => payChanDrops (view.payChan key))
    (g := fun key => payChanDrops (before.payChan key)) (l := (visited env tx).payChans)
    fun key hkey => by rw [h.payChan key hkey]
  unfold holdings visit
  rw [← hacc, ← hesc, ← hpayChan]
  ring

theorem finalize_of_checkInvariants {fee : Int} (hok : result.isTesSuccess = true)
    (h : checkInvariants env tx before view fee result = result) :
    finalize env.importEnv env.genesis tx before view
      (visit (visited env tx) before view) result fee = true := by
  unfold checkInvariants at h
  dsimp only at h
  split at h
  next hpas =>
    exact hpas.1
  exfalso
  unfold failInvariantCheck at h
  split at h <;> (rw [← h] at hok; exact absurd hok (by decide))

/-- The transactors that are left to the invariant add this much to the header. -/
def Adds (env : Env) (tx : STTx) (added : Int) : Prop :=
  (tx.txnType ≠ ttGenesisMint ∧ tx.txnType ≠ ttImport ∧
    ¬ (tx.txnType = ttAmendment ∧ tx.amendment = env.genesis.amendment) ∧ added = 0) ∨
  (tx.txnType = ttGenesisMint ∧ XRPNotCreated.dropsMinted tx = some added)

/-- **What a transactor does to the funds**: the header follows what is held, or the invariant sees
to it. -/
theorem doApply_supply (hchgd : Charged tx before view)
    (h : doApply env tx view = .ok (result, view')) (hok : result.isTesSuccess = true) :
    surplus view' = surplus before + tx.fee ∨
      ∃ added, Adds env tx added ∧ Confined env tx before view' ∧
        view'.drops = before.drops + added ∧ view'.rules = before.rules := by
  -- the account of the transaction is always visited
  have hne : ∀ acc, acc ∉ (visited env tx).accounts → acc ≠ tx.account ∧
      acc ∉ env.touched.accounts ∧ acc ∉ tx.genesisMints.map GenesisMint.destination := by
    intro acc hacc
    have hmem := hacc
    unfold visited at hmem
    rw [mem_cons, mem_append, not_or, not_or] at hmem
    exact hmem
  unfold doApply at h
  split at h
  next htype =>
    have hs := (hookWrites_eraseEmission h).sameFunds
    refine .inr ⟨0, .inl ⟨?_, ?_, ?_, rfl⟩, ⟨fun acc hacc => ?_, fun key _ => ?_, fun key _ => ?_⟩,
      ?_, ?_⟩
    · rw [htype]
      decide
    · rw [htype]
      decide
    · rw [htype]
      exact fun hame => absurd hame.1 (by decide)
    · rw [hs.rootDrops, hchgd.rootDrops acc (hne acc hacc).1]
    · rw [hs.escrow, hchgd.escrow]
    · rw [hs.payChan, hchgd.payChan]
    · rw [hs.drops, hchgd.drops, add_zero]
    · rw [hs.rules, hchgd.rules]
  · split at h
    · refine .inl ?_
      rw [← hchgd.surplus]
      rcases returned_cases (Except.ok.inj h) with ⟨-, rfl⟩ | hx
      · rfl
      · exact surplus_importDoApply hx
    next himp =>
      split at h
      next htype =>
        rcases returned_cases (Except.ok.inj h) with ⟨-, rfl⟩ | hx
        · exact .inl hchgd.surplus
        have hroo := RootsOnly.stepwise.genesisMint hx
        rcases genesisMintDoApply_cases hx with ⟨-, hsur⟩ | ⟨added, hmin, hdro, hoth⟩
        · rw [hsur]
          exact .inl hchgd.surplus
        refine .inr ⟨added, .inr ⟨htype, hmin⟩,
          ⟨fun acc hacc => ?_, fun key _ => ?_, fun key _ => ?_⟩, ?_, ?_⟩
        · rw [hoth acc (hne acc hacc).2.2, hchgd.rootDrops acc (hne acc hacc).1]
        · rw [hroo.escrow, hchgd.escrow]
        · rw [hroo.payChan, hchgd.payChan]
        · rw [hdro, hchgd.drops]
        · rw [hroo.rules, hchgd.rules]
      next hmint =>
        split at h
        · cases h
          refine .inl ?_
          rw [← hchgd.surplus]
          split
          · exact surplus_activateXahauGenesis ..
          · rfl
        next hgen =>
          cases h
          refine .inr ⟨0, .inl ⟨hmint, himp, hgen, rfl⟩,
            ⟨fun acc hacc => ?_, fun key hkey => ?_, fun key hkey => ?_⟩, ?_, hchgd.rules⟩
          · show rootDrops (if acc ∈ env.touched.accounts then _ else view.account acc) = _
            rw [if_neg (hne acc hacc).2.1, hchgd.rootDrops acc (hne acc hacc).1]
          · show (if key ∈ env.touched.escrows then _ else view.escrow key) = _
            rw [if_neg (show key ∉ env.touched.escrows from hkey), hchgd.escrow]
          · show (if key ∈ env.touched.payChans then _ else view.payChan key) = _
            rw [if_neg (show key ∉ env.touched.payChans from hkey), hchgd.payChan]
          · show view.drops = _
            rw [hchgd.drops, add_zero]

/-- **The invariant sees to it**: header and holdings differ by the fee, not yet destroyed. -/
theorem surplus_of_invariants (hfun : SameFunds before view)
    (hfee : before.account tx.account = none → tx.fee = 0)
    (hmint : tx.txnType = ttGenesisMint → before.rules.enabled .featureXahauGenesis = true)
    (h : apply env tx view = .ok (result, view')) (hok : result.isTesSuccess = true)
    (hche : checkInvariants env tx before view' tx.fee result = result) :
    surplus view' = surplus before + tx.fee := by
  obtain ⟨view₁, hchgd, hdo⟩ := charged_of_apply hfun hfee h hok
  rcases doApply_supply hchgd hdo hok with hsur | ⟨added, hadds, hcon, hdro, hrul⟩
  · exact hsur
  have hfin := finalize_of_checkInvariants hok hche
  have htal := hcon.drops_visit
  unfold finalize at hfin
  unfold surplus
  rcases hadds with ⟨hnotMint, hnotImport, hnotGenesis, rfl⟩ | ⟨htype, hmin⟩
  · rw [if_neg hnotGenesis, if_neg fun himp => hnotImport himp.2.1,
      if_neg fun hgen => hnotMint hgen.2.1, decide_eq_true_eq] at hfin
    linarith [hfin.2]
  have hnotImport : ¬ tx.txnType = ttImport := by
    rw [htype]
    decide
  have hnotAmendment : ¬ tx.txnType = ttAmendment := by
    rw [htype]
    decide
  rw [if_neg fun hame => hnotAmendment hame.1, if_neg fun himp => hnotImport himp.2.1, hrul,
    if_pos ⟨hmint htype, htype, hok⟩, hmin] at hfin
  rw [decide_eq_true_eq] at hfin
  linarith [hfin.2.2]

/-! ## Whole transactions -/

theorem preclaim_of_invokePreclaim (h : (invokePreclaim env before tx).isTesSuccess = true) :
    (preclaim env before tx).isTesSuccess = true := by
  unfold invokePreclaim at h
  split at h
  · exact h
  repeat' split at h
  next hfail =>
    rw [h] at hfail
    cases hfail
  next hfail =>
    rw [h] at hfail
    cases hfail
  next hfail =>
    rw [h] at hfail
    cases hfail
  next hfail =>
    rw [h] at hfail
    cases hfail
  · exact h

theorem featureXahauGenesis_of_preclaim (h : (preclaim env before tx).isTesSuccess = true)
    (htype : tx.txnType = ttGenesisMint) : before.rules.enabled .featureXahauGenesis = true := by
  have hnotImport : ¬ tx.txnType = ttImport := by
    rw [htype]
    decide
  unfold preclaim at h
  rw [if_neg hnotImport, if_pos htype] at h
  unfold GenesisMint.preclaim at h
  by_contra hdis
  rw [Bool.not_eq_true] at hdis
  rw [hdis] at h
  split at h <;> cases h

/-- **What an import has to pass**: its inner transaction is new, and it pays no fee if it creates
its account. -/
theorem fee_of_importPreclaim {env : Import.Env}
    (h : (Import.preclaim env before tx).isTesSuccess = true)
    (hn : before.account tx.account = none) : tx.fee = 0 := by
  unfold Import.preclaim at h
  split at h
  · cases h
  split at h
  · cases h
  split at h
  · cases h
  split at h
  · cases h
  dsimp only at h
  split at h
  · cases h
  split at h
  · cases h
  split at h
  · cases h
  rename_i hfee
  by_contra hne
  exact hfee ⟨hn, hne⟩

/-- A transaction of no account pays no fee: it is pseudo, or the import that creates it. -/
theorem fee_of_checks (hpre : (preflight env before.rules tx).isTesSuccess = true)
    (hprec : (invokePreclaim env before tx).isTesSuccess = true)
    (hn : before.account tx.account = none) : tx.fee = 0 := by
  have htra := preclaim_of_invokePreclaim hprec
  unfold preflight at hpre
  split at hpre
  · by_contra hfee
    rw [if_pos hfee] at hpre
    split at hpre <;> cases hpre
  split at hpre
  · cases hpre
  rename_i hzero
  -- only an import can do without an account
  have hseq : (checkSeqProxy before tx).isTesSuccess = true := by
    by_contra hfail
    rw [Bool.not_eq_true] at hfail
    unfold invokePreclaim at hprec
    rw [if_neg hzero, if_pos hfail, hfail] at hprec
    cases hprec
  unfold checkSeqProxy at hseq
  rw [hn] at hseq
  dsimp only at hseq
  split at hseq
  next himp =>
    unfold preclaim at htra
    rw [if_pos himp.2.1] at htra
    exact fee_of_importPreclaim htra hn
  · cases hseq

theorem sameFunds_strong {preclaimResult : Ter}
    (h : (if before.rules.enabled .featureHooks = true ∧ preclaimResult.isTesSuccess = true then
          strongPhase env tx before
        else .ok ⟨preclaimResult, before, [], []⟩) = .ok strong) :
    SameFunds before strong.view ∧
      (strong.result.isTesSuccess = true → preclaimResult.isTesSuccess = true) := by
  split at h
  next hhs =>
    exact ⟨(hookWrites_strongPhase h).sameFunds, fun _ => hhs.2⟩
  · cases h
    exact ⟨.refl, id⟩

theorem surplus_of_settle (hpref : (preflight env before.rules tx).isTesSuccess = true)
    (hstr : (if before.rules.enabled .featureHooks = true ∧
          (invokePreclaim env before tx).isTesSuccess = true then strongPhase env tx before
        else .ok ⟨invokePreclaim env before tx, before, [], []⟩) = .ok strong)
    (happ : (if strong.result.isTesSuccess then apply env tx strong.view
        else .ok (strong.result, strong.view)) = .ok (result, view))
    (hset : settle env tx before result view = (result', some settled)) :
    surplus settled.view = surplus before + settled.fee := by
  obtain ⟨hfun, hpas⟩ := sameFunds_strong hstr
  rcases settle_cases hset with ⟨rfl, hok, -, hche⟩ | hres
  · split at happ
    next hagr =>
      have hpre := hpas hagr
      exact surplus_of_invariants hfun (fee_of_checks hpref hpre)
        (featureXahauGenesis_of_preclaim (preclaim_of_invokePreclaim hpre)) happ hok
        hche
    next hrej =>
      cases happ
      exact absurd hok hrej
  · exact hres.surplus

/-- **What follows for an applied transaction**: the header follows what is held, and the fee is
destroyed. -/
theorem conserves_conclude (h : conclude env tx aawMap result settled = .ok (result', view, ids)) :
    ∃ view₁, Conserves settled.view view₁ ∧ view = { view₁ with
      drops := if view₁.isOpen then view₁.drops else view₁.drops - settled.fee
      txs := tx.transactionID :: view₁.txs } := by
  have hrew := (sameFunds_rewards env settled.view).conserves
  unfold conclude at h
  simp only [bind_eq_ok] at h
  obtain ⟨⟨view₁, ids₁⟩, hpost, -, -, h⟩ := h
  cases h
  refine ⟨view₁, ?_, rfl⟩
  split at hpost
  · exact hrew.trans (conserves_postApplication hpost)
  · cases hpost
    exact hrew

theorem surplus_of_conclude (hclo : settled.view.isOpen = false)
    (h : conclude env tx aawMap result settled = .ok (result', view, ids)) :
    surplus view = surplus settled.view - settled.fee := by
  obtain ⟨view₁, hcon, rfl⟩ := conserves_conclude h
  rw [← hcon.surplus]
  rw [hcon.isOpen, hclo]
  show view₁.drops - settled.fee - holdings view₁ = view₁.drops - holdings view₁ - settled.fee
  ring

theorem operator_of_applyTransaction {outcome : TxOutcome}
    (h : applyTransaction env tx before = .ok outcome) (happ : outcome.applied = true) :
    (preflight env before.rules tx).isTesSuccess = true ∧
      operator env tx (invokePreclaim env before tx) before = .ok outcome := by
  unfold applyTransaction at h
  dsimp only at h
  split at h
  · cases h
    cases happ
  rename_i hpre
  split at h
  · exact ⟨Bool.not_eq_false _ ▸ hpre, h⟩
  · cases h
    cases happ

theorem isOpen_of_apply (h : apply env tx view = .ok (result, view')) :
    view'.isOpen = view.isOpen := by
  rcases apply_cases h with hunm | ⟨view₁, hunm, hdo⟩
  · exact hunm.isOpen
  rcases doApply_cases hdo with hs | ⟨-, hera⟩
  · exact hs.isOpen.trans hunm.isOpen
  · exact (hookWrites_eraseEmission hera).sameFunds.isOpen.trans hunm.isOpen

/-- **The native supply is conserved**: applied to a closed ledger, a transaction changes the
header's total by as much as what is held. -/
theorem drops_change_as_holdings (env : Env) (tx : STTx) (before : View) (outcome : TxOutcome)
    (hclosed : before.isOpen = false) (h : applyTransaction env tx before = .ok outcome)
    (happlied : outcome.applied = true) :
    outcome.view.drops - before.drops = holdings outcome.view - holdings before := by
  obtain ⟨hpreflight, hoperator⟩ := operator_of_applyTransaction h happlied
  obtain ⟨strong, result, view, result', settled, ids, hstrong, happly, hsettle, hconclude, -⟩ :=
    operator_applied hoperator happlied
  have hopen : settled.view.isOpen = false := by
    rw [← hclosed]
    rcases settle_cases hsettle with ⟨rfl, -⟩ | hreset
    · have hfunds := (sameFunds_strong hstrong).1
      split at happly
      · exact (isOpen_of_apply happly).trans hfunds.isOpen
      · cases happly
        exact hfunds.isOpen
    · exact hreset.sameEmissions.isOpen
  have hsettled := surplus_of_settle hpreflight hstrong happly hsettle
  have hconcluded := surplus_of_conclude hopen hconclude
  have hsurplus : surplus outcome.view = surplus before := by
    rw [hconcluded, hsettled]
    ring
  unfold surplus at hsurplus
  linarith

end

def paidPayment : STTx := { strangerPayment with fee := 12 }

/-- Twelve drops of the payment and one of the owner, run weakly, are destroyed. -/
theorem paidPayment_drops_change :
    ∃ outcome, applyTransaction (acceptingEnv [(owner, false)] []) paidPayment hookedLedger
        = .ok outcome ∧
      (outcome.applied = true ∧ outcome.view.drops = hookedLedger.drops - 13) ∧
      holdings outcome.view = holdings hookedLedger - 13 := by
  have hrun : ∃ outcome,
      applyTransaction (acceptingEnv [(owner, false)] []) paidPayment hookedLedger = .ok outcome ∧
      (outcome.applied = true ∧ outcome.view.drops = hookedLedger.drops - 13) := by
    decide +kernel
  obtain ⟨outcome, h, hprops⟩ := hrun
  refine ⟨outcome, h, hprops, ?_⟩
  have hchange := drops_change_as_holdings _ _ _ outcome rfl h hprops.1
  linarith [hprops.2]

end Xahau.Transactor
