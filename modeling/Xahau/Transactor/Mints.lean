import Xahau.Hook.Commit
import Xahau.Transactor.Supply

/-! # Genesis mints (`GenesisMint.cpp`)

A genesis mint lists destinations, which may repeat. One loop adds up the entries of each account,
another credits the accounts, and `XRPNotCreated` adds up the entries again. The three agree, so the
invariant can only object to a supply beyond the limit of the system. -/

namespace Xahau.Transactor

open Checked Function Hook List Total XRPNotCreated

/-- What an entry credits: nothing if it has no amount. -/
def toCredit (dest : GenesisMint) : Int := (dest.amount.map Amount.drops).getD 0

/-- What the entries of an account add up to. -/
def minted (dests : List GenesisMint) (acc : AccountID) : Int :=
  (dests.map fun dest => if dest.destination = acc then toCredit dest else 0).sum

/-- What all entries add up to. -/
def totalMinted (dests : List GenesisMint) : Int := (dests.map toCredit).sum

namespace GenesisMint

/-- `GenesisMint::preflight` on an entry: it has an amount, flags or marks; the amount is native,
not negative and at most ten million; the account is not `noAccount` or `xrpAccount`. -/
def entryValid (dest : GenesisMint) : Bool :=
  (dest.amount.isSome || dest.governanceMarks.isSome || dest.governanceFlags.isSome) &&
    decide (dest.amount ≠ some .issued ∧ 0 ≤ toCredit dest ∧ toCredit dest ≤ 10000000000000 ∧
      dest.destination ≠ .ofByte 1 ∧ dest.destination ≠ .zero)

/-- `GenesisMint::preflight`, with what `preflight1` and `preflight2` say. -/
def preflight (genesisAccountId : AccountID) (rules : Rules) (tx : STTx)
    (preflight1 preflight2 : Ter) : Ter :=
  if rules.enabled .featureHooks = false ∨ rules.enabled .featureXahauGenesis = false then .temDISABLED
  else if preflight1.isTesSuccess = false then preflight1
  else if tx.account ≠ genesisAccountId ∨ tx.emitDetails = none then .temMALFORMED
  else if tx.genesisMints = [] ∨ 512 < tx.genesisMints.length then .temMALFORMED
  else if ¬ tx.genesisMints.all entryValid then .temMALFORMED
  else if rules.enabled .fixXahauV1 = false ∧ ¬ (tx.genesisMints.map (·.destination)).Nodup then
    .temMALFORMED
  else preflight2

end GenesisMint

section

variable {env : Env} {tx : STTx} {before view view' : View} {acc : AccountID} {result : Ter}
  {dests : List GenesisMint} {genesisAccountId : AccountID} {rules : Rules}
  {preflight1 preflight2 : Ter}

theorem of_genesisMintPreflight
    (h : (GenesisMint.preflight genesisAccountId rules tx preflight1 preflight2).isTesSuccess = true) :
    rules.enabled .featureXahauGenesis = true ∧ preflight1.isTesSuccess = true ∧
      ∀ dest ∈ tx.genesisMints, 0 ≤ toCredit dest := by
  unfold GenesisMint.preflight at h
  split at h
  · cases h
  rename_i hena
  split at h
  next hfail =>
    exact absurd (h.symm.trans hfail) nofun
  rename_i hpas
  iterate 3 (split at h; · cases h)
  rename_i hvalid
  simp only [not_or, Bool.not_eq_false, not_not, all_eq_true] at hena hpas hvalid
  refine ⟨hena.2, hpas, fun dest hdest => ?_⟩
  have hent := hvalid dest hdest
  simp only [GenesisMint.entryValid, Bool.and_eq_true, decide_eq_true_eq] at hent
  exact hent.2.2.1

theorem fee_nonneg_of_preflight (h : (preflight env rules tx).isTesSuccess = true) : 0 ≤ tx.fee := by
  by_contra hneg
  unfold preflight at h
  split at h
  · rw [if_pos (by omega : tx.fee ≠ 0)] at h
    split at h <;> cases h
  · rw [if_pos (.inl (by omega) : tx.fee < 0 ∨ initialXrp < tx.fee)] at h
    split at h <;> cases h

theorem failsWith_genesisMint (hfix : view.rules.enabled .fixXahauV1 = true) :
    FailsWith (fun result => result.isTesSuccess = false) (GenesisMint.doApply tx view) := by
  have hsum : ∀ dests mints dropsAdded, FailsWith (fun result => result.isTesSuccess = false)
      (GenesisMint.sumMints dests mints dropsAdded) := by
    intro dests
    induction dests with
    | nil => exact fun _ _ => .ok
    | cons dest dests ih =>
      intro mints dropsAdded
      refine .bind (.failIf rfl) fun _ _ => .bind ?_ fun mint _ => ih _ _
      split
      · exact .ok
      · exact .bind (.failIf rfl) fun _ _ => .ok
  have hcre : ∀ mints view, FailsWith (fun result => result.isTesSuccess = false)
      (GenesisMint.creditMints mints view) := by
    intro mints
    induction mints with
    | nil => exact fun _ => .ok
    | cons entry mints ih =>
      intro view
      refine .bind ?_ fun sle _ => ih _
      split
      · exact .ok
      · exact .bind (.failIf rfl) fun _ _ => .ok
  unfold GenesisMint.doApply
  rw [if_neg (by simp [hfix])]
  refine .bind (hsum _ _ _) fun _ _ => .bind (.failIf rfl) fun _ _ => ?_
  exact .bind (hcre _ _) fun _ _ => .ok

/-! ## The two loops -/

theorem minted_nonneg (h : ∀ dest ∈ dests, 0 ≤ toCredit dest) (acc : AccountID) :
    0 ≤ minted dests acc := by
  refine sum_nonneg fun x hx => ?_
  obtain ⟨dest, hdest, rfl⟩ := mem_map.mp hx
  split
  · exact h dest hdest
  · exact le_rfl

/-- **The sum loop** adds up the entries of each account. -/
theorem amount_of_sumMints {mints mints' : AList fun _ : AccountID => GenesisMint.Mint}
    {dropsAdded dropsAdded' : Int}
    (h : GenesisMint.sumMints dests mints dropsAdded = .ok (mints', dropsAdded')) (acc : AccountID) :
    ((mints'.lookup acc).map (·.amount)).getD 0
      = ((mints.lookup acc).map (·.amount)).getD 0 + minted dests acc := by
  induction dests generalizing mints dropsAdded with
  | nil =>
    cases h
    exact (add_zero _).symm
  | cons dest dests ih =>
    rw [GenesisMint.sumMints, bind_eq_ok] at h
    obtain ⟨_, -, h⟩ := h
    obtain ⟨mint, hmint, h⟩ := bind_eq_ok.mp h
    have hone : mint.amount
        = ((mints.lookup dest.destination).map (·.amount)).getD 0 + toCredit dest := by
      split at hmint
      next hn =>
        rw [hn, ← Except.ok.inj hmint]
        exact (zero_add _).symm
      next old hold =>
        replace hmint := of_check hmint
        rw [hold, ← Except.ok.inj hmint]
        rfl
    rw [ih h, minted, minted, map_cons, sum_cons]
    by_cases hacc : dest.destination = acc
    · subst hacc
      rw [AList.lookup_insert, if_pos rfl, Option.map_some, Option.getD_some, hone, add_assoc]
    · rw [AList.lookup_insert_ne (Ne.symm hacc), if_neg hacc, zero_add]

/-- **The action loop** credits each account once. -/
theorem rootDrops_of_creditMints {mints : List (AccountID × GenesisMint.Mint)}
    {mint : GenesisMint.Mint} (h : GenesisMint.creditMints mints view = .ok view')
    (hnd : (mints.map Prod.fst).Nodup) (hmem : (acc, mint) ∈ mints) (hpos : 0 ≤ mint.amount) :
    rootDrops (view'.account acc) = rootDrops (view.account acc) + mint.amount := by
  induction mints generalizing view with
  | nil => cases hmem
  | cons entry mints ih =>
    obtain ⟨id, mint'⟩ := entry
    rw [map_cons, nodup_cons] at hnd
    rw [GenesisMint.creditMints, bind_eq_ok] at h
    obtain ⟨sle, hsle, h⟩ := h
    rcases mem_cons.mp hmem with heq | htail
    · cases heq
      rw [(account_of_creditMints h).2 acc hnd.1]
      show rootDrops (update view.account acc _ acc) = _
      rw [update_self]
      split at hsle
      next hn =>
        rw [hn, ← Except.ok.inj hsle]
        exact (zero_add _).symm
      next old hold =>
        replace hsle := of_check hsle
        rw [hold, ← Except.ok.inj hsle]
        split
        · rfl
        rename_i hzero
        rw [le_antisymm (Int.not_lt.mp hzero) hpos]
        exact (add_zero _).symm
    · have hne : acc ≠ id := by
        rintro rfl
        exact hnd.1 (mem_map.mpr ⟨_, htail, rfl⟩)
      rw [ih h hnd.2 htail]
      show rootDrops (update view.account id _ acc) + _ = _
      rw [update_of_ne hne]

theorem rootDrops_of_genesisMint (hfix : view.rules.enabled .fixXahauV1 = true)
    (hnn : ∀ dest ∈ tx.genesisMints, 0 ≤ toCredit dest)
    (h : GenesisMint.doApply tx view = .ok view') (acc : AccountID) :
    rootDrops (view'.account acc) = rootDrops (view.account acc) + minted tx.genesisMints acc := by
  unfold GenesisMint.doApply at h
  rw [if_neg (by simp [hfix]), bind_eq_ok] at h
  obtain ⟨⟨mints, dropsAdded⟩, hsum, h⟩ := h
  obtain ⟨hfits, h⟩ := of_failIf h
  obtain ⟨view₁, hcre, h⟩ := bind_eq_ok.mp h
  rw [not_or] at hfits
  have hamo := amount_of_sumMints hsum acc
  rw [AList.lookup_empty, Option.map_none, Option.getD_none, zero_add] at hamo
  cases h
  rw [drops_addDrops (Int.not_lt.mp hfits.1), ← hamo]
  show rootDrops (view₁.account acc) = _
  cases hlk : mints.lookup acc with
  | none =>
    rw [(account_of_creditMints hcre).2 acc fun hmem => ?_]
    · exact (add_zero _).symm
    simp only [map_map, mem_map, comp_apply] at hmem
    obtain ⟨entry, hent, rfl⟩ := hmem
    rw [mem_sortedEntries.mp hent] at hlk
    cases hlk
  | some mint =>
    have hpos := minted_nonneg hnn acc
    rw [← hamo, hlk] at hpos
    refine rootDrops_of_creditMints hcre ?_ ?_ hpos
    · rw [map_map]
      exact nodup_sortedEntries mints
    · exact mem_map.mpr ⟨⟨acc, mint⟩, mem_sortedEntries.mpr hlk, rfl⟩

/-! ## The invariant -/

variable {l : List AccountID}

theorem sum_ite_eq_of_mem (hnd : l.Nodup) {id : AccountID} (hid : id ∈ l)
    (x : Int) : (l.map fun acc => if id = acc then x else 0).sum = x := by
  rw [← sum_toFinset _ hnd, Finset.sum_ite_eq, if_pos (mem_toFinset.mpr hid)]

theorem sum_minted (hnd : l.Nodup) (hmem : ∀ dest ∈ dests, dest.destination ∈ l) :
    (l.map (minted dests)).sum = totalMinted dests := by
  induction dests with
  | nil =>
    have hnil : minted [] = fun _ => 0 := rfl
    simp [hnil, totalMinted]
  | cons dest dests ih =>
    have hcons : minted (dest :: dests)
        = fun acc => (if dest.destination = acc then toCredit dest else 0) + minted dests acc := rfl
    rw [hcons, sum_map_add, sum_ite_eq_of_mem hnd (hmem dest mem_cons_self),
      ih fun dest' hdest' => hmem dest' (mem_cons_of_mem _ hdest')]
    rfl

theorem Charged.rootDrops_eq (h : Charged tx before view) (acc : AccountID) :
    Transactor.rootDrops (view.account acc)
      = Transactor.rootDrops (before.account acc) - if acc = tx.account then tx.fee else 0 := by
  split
  next heq =>
    have htot := total_sub_total (f := fun acc => Transactor.rootDrops (view.account acc))
      (g := fun acc => Transactor.rootDrops (before.account acc)) (l := [tx.account])
      fun acc' hacc' => h.rootDrops acc' fun heq => hacc' (mem_singleton.mpr heq)
    have hsur := h.surplus
    simp only [dedup_eq_self.mpr (nodup_singleton tx.account), map_cons, map_nil,
      sum_cons, sum_nil, add_zero] at htot
    unfold Transactor.surplus holdings at hsur
    rw [h.drops, h.escrow, h.payChan] at hsur
    rw [heq]
    linarith
  next hne =>
    rw [h.rootDrops acc hne, sub_zero]

/-- **What a reset leaves**: the account has paid a fee, and all else is as before. -/
theorem ResetView.funds {settled : Settled} (h : ResetView env tx before settled) :
    (∀ acc, rootDrops (settled.view.account acc)
      = rootDrops (before.account acc) - if acc = tx.account then settled.fee else 0) ∧
    (∀ acc, settled.view.account acc = none ↔ before.account acc = none) ∧
    settled.view.drops = before.drops := by
  have hs : SameFunds (reset tx tx.fee before).2.1 settled.view := by
    rcases h.view with heq | ⟨result, heq⟩
    · rw [heq]
      exact .refl
    · rw [heq]
      exact sameFunds_removeOffers ..
  rw [hs.drops, h.fee]
  simp only [hs.rootDrops, hs.account_eq_none]
  unfold reset
  split
  · simp
  rename_i txnAcct hacc
  have hchgd : (before.setAccount tx.account
      { txnAcct with balance := txnAcct.balance - min tx.fee txnAcct.balance }).account tx.account
      = some _ := update_self ..
  have hcon := sameFunds_consumeSeqProxy hchgd
  refine ⟨fun acc => ?_, fun acc => ?_, hcon.drops⟩
  · rw [hcon.rootDrops]
    show rootDrops (update before.account tx.account _ acc) = _
    by_cases heq : acc = tx.account
    · rw [heq, update_self, if_pos rfl, hacc]
      rfl
    · rw [update_of_ne heq, if_neg heq, sub_zero]
  · rw [hcon.account_eq_none]
    show update before.account tx.account _ acc = none ↔ _
    by_cases heq : acc = tx.account
    · simp [heq, hacc]
    · rw [update_of_ne heq]

/-- **What the invariant adds up**: the visited accounts hold the sum of all entries more than
before, less the fee. -/
theorem visit_of_mints (hmem : ∀ dest ∈ tx.genesisMints, dest.destination ∈ (visited env tx).accounts)
    (hroo : ∀ acc, rootDrops (view.account acc) = rootDrops (before.account acc)
      + minted tx.genesisMints acc - if acc = tx.account then tx.fee else 0)
    (hesc : view.escrow = before.escrow) (hpayChan : view.payChan = before.payChan) :
    (visit (visited env tx) before view).drops = totalMinted tx.genesisMints - tx.fee := by
  have hnd := nodup_dedup (visited env tx).accounts
  have hcha : (fun acc => rootDrops (view.account acc) - rootDrops (before.account acc))
      = fun acc => minted tx.genesisMints acc
        + if tx.account = acc then -tx.fee else 0 := by
    funext acc
    rw [hroo]
    by_cases heq : acc = tx.account
    · simp only [heq, if_true]
      ring
    · simp only [if_neg heq, if_neg (Ne.symm heq)]
      ring
  unfold visit
  rw [hcha, sum_map_add, sum_minted hnd fun dest hdest => mem_dedup.mpr (hmem dest hdest),
    sum_ite_eq_of_mem hnd (mem_dedup.mpr mem_cons_self), hesc, hpayChan]
  simp
  ring

/-- **A genesis mint is exact.** If it succeeds, every account gets the sum of its entries, the
header the sum of all, and the invariant accepts exactly if the supply stays within the limit. If it
fails, the accounts are as they were, but for the fee. -/
theorem genesisMint_exact (env : Env) (tx : STTx) (before view : View) (preflight2 : Ter)
    (htype : tx.txnType = ttGenesisMint) (hfix : before.rules.enabled .fixXahauV1 = true)
    (hpreflight : (GenesisMint.preflight env.genesis.account before.rules tx
      (preflight env before.rules tx) preflight2).isTesSuccess = true)
    (hpreclaim : (invokePreclaim env before tx).isTesSuccess = true) (hfunds : SameFunds before view)
    (happly : apply env tx view = .ok (result, view')) :
    (result.isTesSuccess = true →
      (∀ acc, rootDrops (view'.account acc) = rootDrops (before.account acc)
        + minted tx.genesisMints acc - if acc = tx.account then tx.fee else 0) ∧
      view'.drops = before.drops + totalMinted tx.genesisMints ∧
      (finalize env.importEnv env.genesis tx before view'
          (visit (visited env tx) before view') result tx.fee = true ↔
        before.drops + totalMinted tx.genesisMints ≤ initialXrp)) ∧
    ∀ result' settled, settle env tx before result view' = (result', some settled) →
      result'.isTesSuccess = false →
      (∀ acc, rootDrops (settled.view.account acc)
        = rootDrops (before.account acc) - if acc = tx.account then settled.fee else 0) ∧
      (∀ acc, settled.view.account acc = none ↔ before.account acc = none) ∧
      settled.view.drops = before.drops := by
  obtain ⟨hgenesis, hpreflight1, hnonneg⟩ := of_genesisMintPreflight hpreflight
  refine ⟨fun hsuccess => ?_, fun result' settled hsettle hfail => ?_⟩
  · obtain ⟨view₁, hcharged, hdo⟩ :=
      charged_of_apply hfunds (fee_of_checks hpreflight1 hpreclaim) happly hsuccess
    unfold doApply at hdo
    rw [if_neg (by rw [htype]; decide), if_neg (by rw [htype]; decide), if_pos htype] at hdo
    have hfix₁ : view₁.rules.enabled .fixXahauV1 = true := hcharged.rules ▸ hfix
    rcases returned_cases (Except.ok.inj hdo) with ⟨hmint, -⟩ | hmint
    · rw [failsWith_genesisMint hfix₁ _ hmint] at hsuccess
      cases hsuccess
    · have hroots : ∀ acc, rootDrops (view'.account acc) = rootDrops (before.account acc)
          + minted tx.genesisMints acc - if acc = tx.account then tx.fee else 0 := by
        intro acc
        rw [rootDrops_of_genesisMint hfix₁ hnonneg hmint, hcharged.rootDrops_eq]
        ring
      obtain ⟨hold, -⟩ | ⟨added, hminted, hdrops, -⟩ := genesisMintDoApply_cases hmint
      · rw [hfix₁] at hold
        cases hold
      have hadded : added = totalMinted tx.genesisMints := by
        unfold dropsMinted at hminted
        split at hminted
        · cases hminted
        · exact (Option.some.inj hminted).symm
      refine ⟨hroots, ?_, ?_⟩
      · rw [hdrops, hcharged.drops, hadded]
      have hroots' := RootsOnly.stepwise.genesisMint hmint
      have hmem : ∀ dest ∈ tx.genesisMints, dest.destination ∈ (visited env tx).accounts :=
        fun dest hdest =>
          mem_cons_of_mem _ (mem_append_right _ (mem_map_of_mem hdest))
      have htally := visit_of_mints hmem hroots (hroots'.escrow.trans hcharged.escrow)
        (hroots'.payChan.trans hcharged.payChan)
      have hfee := fee_nonneg_of_preflight hpreflight1
      unfold finalize
      rw [if_neg (by rw [htype]; exact fun h => absurd h.1 (by decide)),
        if_neg (by rw [htype]; exact fun h => absurd h.2.1 (by decide)), hroots'.rules,
        hcharged.rules, if_pos ⟨hgenesis, htype, hsuccess⟩, hminted, htally, hadded]
      simp [hfee]
  · rcases settle_cases hsettle with ⟨rfl, hsuccess, rfl, -⟩ | hreset
    · rw [hsuccess] at hfail
      cases hfail
    · exact hreset.funds

end

/-- A ledger with the given total of drops, in which an emission need not be found. -/
def mintingLedger (drops : Int) : View :=
  { hookedLedger with drops, rules := ⟨fun feature => decide (feature ≠ .fixXahauV2)⟩ }

/-- A mint for an account that is listed twice. -/
def repeatedMint : STTx :=
  { emittedByOwner with
    txnType := ttGenesisMint
    genesisMints := [⟨.ofByte 8, some (.xrp 3), none, none⟩, ⟨.ofByte 8, some (.xrp 5), none, none⟩] }

/-- The account that is listed twice gets both amounts, and the invariant accepts. -/
theorem repeatedMint_exact :
    ∃ p, apply (acceptingEnv [] []) repeatedMint (mintingLedger 0) = .ok p ∧
      p.1.isTesSuccess = true ∧ rootDrops (p.2.account (.ofByte 8)) = 1008 ∧ p.2.drops = 8 ∧
      finalize noImport noGenesis repeatedMint (mintingLedger 0) p.2
        (visit (visited (acceptingEnv [] []) repeatedMint) (mintingLedger 0) p.2)
        p.1 0 = true := by
  have hrun : ∃ p, apply (acceptingEnv [] []) repeatedMint (mintingLedger 0) = .ok p ∧
      p.1.isTesSuccess = true := by
    decide +kernel
  obtain ⟨p, happly, hsuccess⟩ := hrun
  obtain ⟨hroots, hdrops, haccepts⟩ := (genesisMint_exact (acceptingEnv [] []) repeatedMint
    (mintingLedger 0) (mintingLedger 0) .tesSUCCESS rfl (by decide) (by decide +kernel)
    (by decide +kernel) .refl happly).1 hsuccess
  exact ⟨_, happly, hsuccess, hroots _, hdrops, haccepts.mpr (by decide)⟩

/-- **A mint beyond the limit of the system**: it succeeds, and the invariant rejects it. -/
theorem mint_beyond_limit :
    ∃ p, apply (acceptingEnv [] []) repeatedMint (mintingLedger initialXrp) = .ok p ∧
      p.1.isTesSuccess = true ∧
      finalize noImport noGenesis repeatedMint (mintingLedger initialXrp) p.2
        (visit (visited (acceptingEnv [] []) repeatedMint) (mintingLedger initialXrp) p.2)
        p.1 0 = false := by
  decide +kernel

end Xahau.Transactor
