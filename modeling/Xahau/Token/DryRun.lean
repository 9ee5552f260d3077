import Xahau.Token.Spending

/-! # Dry runs of transfers (`View.h`)

A transfer of locked tokens is tried before it is made. The dry run reads the line of the
destination before anything was taken from the source, and does not try to create a line. So it can
differ if source and destination have the same line, or if a directory is full. -/

namespace Xahau.Token

open Checked Function Holds LockFields Transfer

variable {env : Env} {view view' : View} {t : Transfer} {issue : Issue} {account : AccountID}

/-! ## What a dry run is for -/

/-- A transfer takes the amount from the source's balance and lock, and at most the amount arrives.
An issuer has no balance in its own tokens. -/
def Transfer.Moved (t : Transfer) (view view' : View) : Prop :=
  ∃ arrived, 0 ≤ arrived ∧ arrived ≤ t.amount ∧
    (t.src ≠ t.issue.account →
      heldBalance t.src t.issue view' =
        heldBalance t.src t.issue view - t.amount + (if t.src = t.dst then arrived else 0) ∧
      lockedBalance t.src t.issue view' = lockedBalance t.src t.issue view - t.amount) ∧
    (t.dst ≠ t.issue.account →
      heldBalance t.dst t.issue view' =
        heldBalance t.dst t.issue view + arrived - (if t.src = t.dst then t.amount else 0))

/-- **The dry run is faithful**: it has the wet run's result and changes nothing, and the wet run
moves the amount. -/
structure Transfer.Faithful (env : Env) (t : Transfer) (view : View) : Prop where
  sameCode : code (trustTransferLockedBalance env t true view) =
    code (trustTransferLockedBalance env t false view)
  unchanged : ∀ view', trustTransferLockedBalance env t true view = .ok view' → view' = view
  moved : ∀ view', trustTransferLockedBalance env t false view = .ok view' → t.Moved view view'

/-- There is room for a line in the owner directory of an account. -/
def HasRoom (env : Env) (view : View) (key : LineKey) (id : AccountID) : Prop :=
  ∃ page dir, (view.ownerDir id).dirAdd (!view.rules.enabled .fixPageCap) false (env.lineIndex key) =
    .ok (some (page, dir))

/-- What a dry run does not look at, or sees before it changes. -/
structure Transfer.Plain (env : Env) (t : Transfer) (view : View) : Prop where
  /-- No tokens are made by the transfer. -/
  rate : parityRate ≤ t.lXferRate
  /-- The count of locks does not run out before what is locked. -/
  count : t.src ≠ t.issue.account →
    (view.lock t.srcKey).count + .ofInt t.deltaLockCount ≠ 0 ∨
      lockedBalance t.src t.issue view = t.amount
  /-- A line for the destination can be created. -/
  room : t.dst ≠ t.issue.account → view.line t.dstKey = none →
    ∀ id ∈ [t.dst, t.issue.account], HasRoom env view t.dstKey id
  /-- A line that gives to itself has room for what arrives first. -/
  self : t.src = t.dst → ∀ line, view.line t.srcKey = some line →
    (t.actingAcc = t.dst ∨
      inTerms t.srcHigh line.balance + t.dstAmt ≤ (line.side t.srcHigh).limit) ∧
    env.isAddable (inTerms t.srcHigh line.balance) t.dstAmt =
      env.isAddable (inTerms t.srcHigh line.balance - t.amount) t.dstAmt

/-! ## The parts of a transfer -/

/-- The checks that both runs make first. -/
def Transfer.checks (t : Transfer) (view : View) : Except Ter AccountRoot := do
  failIf (view.rules.enabled .featurePaychanAndEscrowForTokens = false) .tefINTERNAL
  let _ ← view.getAccount t.src .tecINTERNAL
  let sleDstAcc ← view.getAccount t.dst .tecINTERNAL
  failIf (t.amount ≤ 0) .tecINTERNAL
  trustTransferAllowed view [t.src, t.dst] t.issue
  .ok sleDstAcc

theorem trustTransferLockedBalance_eq (dryRun : Bool) :
    trustTransferLockedBalance env t dryRun view = (do
      let sleDstAcc ← t.checks view
      let view₁ ← t.debit env dryRun view
      let view₂ ← t.creditDst env dryRun sleDstAcc view₁
      .ok (if dryRun then view₂ else t.releaseReserve view₂)) := by
  unfold trustTransferLockedBalance checks
  simp only [bind_assoc, ok_bind]

variable {id : AccountID} {root sleDstAcc : AccountRoot} {high : Bool} {key : LineKey}
  {line line' : RippleState} {amount : ℚ}

theorem Transfer.checks_eq_ok (h : t.checks view = .ok sleDstAcc) :
    0 < t.amount ∧ ∃ root, view.account t.issue.account = some root := by
  replace h := of_check h
  replace h := of_check h
  obtain ⟨_, -, h⟩ := bind_eq_ok.mp h
  obtain ⟨hpos, h⟩ := of_failIf h
  obtain ⟨_, hall, h⟩ := bind_eq_ok.mp h
  refine ⟨not_le.mp hpos, ?_⟩
  replace hall := of_check hall
  obtain ⟨root, hroot, -⟩ := bind_eq_ok.mp hall
  unfold View.getAccount at hroot
  split at hroot
  next root' hissr => exact ⟨root', hissr⟩
  next => exact nomatch hroot

/-- **The debit** has the same result code in both runs. -/
theorem Transfer.code_debit : code (t.debit env true view) = code (t.debit env false view) := by
  unfold debit
  split
  · rfl
  split
  · rfl
  · exact code_bind_eq rfl fun _ _ _ _ => rfl

theorem Transfer.debit_dry (h : t.debit env true view = .ok view') : view' = view := by
  unfold debit at h
  split at h
  · exact (Except.ok.inj h).symm
  split at h
  · exact nomatch h
  · obtain ⟨_, -, h⟩ := bind_eq_ok.mp h
    exact (Except.ok.inj h).symm

theorem Transfer.creditDst_dry
    (h : t.creditDst env true sleDstAcc view = .ok view') : view' = view := by
  unfold creditDst at h
  split at h
  · exact (Except.ok.inj h).symm
  split at h
  · replace h := of_check (of_check h)
    exact (Except.ok.inj h).symm
  · obtain ⟨_, -, h⟩ := bind_eq_ok.mp h
    exact (Except.ok.inj h).symm

theorem trustTransferLockedBalance_dry (h : trustTransferLockedBalance env t true view = .ok view') :
    view' = view := by
  rw [trustTransferLockedBalance_eq] at h
  obtain ⟨_, -, h⟩ := bind_eq_ok.mp h
  obtain ⟨view₁, hdeb, h⟩ := bind_eq_ok.mp h
  obtain ⟨view₂, hcre, h⟩ := bind_eq_ok.mp h
  rw [← debit_dry hdeb, ← creditDst_dry hcre]
  exact (Except.ok.inj h).symm

theorem HasRoom.dirInsert (h : HasRoom env view key id) :
    ∃ page dir, view.dirInsert id (env.lineIndex key) = .ok (page, view.setOwnerDir id dir) := by
  obtain ⟨page, dir, hadd⟩ := h
  refine ⟨page, dir, ?_⟩
  unfold View.dirInsert
  rw [hadd]

theorem HasRoom.setOwnerDir {id' : AccountID} (h : HasRoom env view key id)
    (hne : id ≠ id') (dir : Directory) : HasRoom env (view.setOwnerDir id' dir) key id := by
  obtain ⟨page, dir', hadd⟩ := h
  refine ⟨page, dir', ?_⟩
  show ((update view.ownerDir id' dir id).dirAdd _ _ _) = _
  rw [update_of_ne hne]
  exact hadd

/-- **A line can be created** if there is room in the directories of two accounts and the other one
exists. -/
theorem trustCreate_succeeds {src dst : AccountID} {currency : Currency} {noRipple : Bool} {balance : ℚ}
    (hne : src ≠ dst) (hroot : view.account src = some root)
    (hsrc : HasRoom env view (lineKey src dst currency) src)
    (hdst : HasRoom env view (lineKey src dst currency) dst) :
    Succeeds (trustCreate env view src dst currency noRipple balance) := by
  have hends : (lineKey src dst currency).low ≠ (lineKey src dst currency).high ∧
      HasRoom env view (lineKey src dst currency) (lineKey src dst currency).low ∧
      HasRoom env view (lineKey src dst currency) (lineKey src dst currency).high := by
    generalize hkey : lineKey src dst currency = key at hsrc hdst
    unfold lineKey at hkey
    split at hkey
    · rw [← hkey] at hsrc hdst ⊢
      exact ⟨hne, hsrc, hdst⟩
    · rw [← hkey] at hsrc hdst ⊢
      exact ⟨hne.symm, hdst, hsrc⟩
  obtain ⟨hlowh, hlow, hhigh⟩ := hends
  obtain ⟨lowNode, lowDir, hlow⟩ := hlow.dirInsert
  obtain ⟨highNode, highDir, hhigh⟩ := (hhigh.setOwnerDir hlowh.symm lowDir).dirInsert
  have hpeer : ((view.setOwnerDir (lineKey src dst currency).low lowDir).setOwnerDir
      (lineKey src dst currency).high highDir).getAccount src .tecNO_TARGET = .ok root := by
    unfold View.getAccount View.setOwnerDir
    rw [hroot]
  unfold trustCreate
  dsimp only
  rw [hlow, ok_bind, hhigh, ok_bind, hpeer, ok_bind]
  exact succeeds_ok

/-! ## Same result codes -/

/-- **The credit** has the same result, dry and with other lines, if the line can be credited in
both or created. -/
theorem Transfer.code_creditDst {lines : LineKey → Option RippleState}
    (hroot : view.account t.issue.account = some root)
    (hroom : t.dst ≠ t.issue.account → view.line t.dstKey = none →
      ∀ id ∈ [t.dst, t.issue.account], HasRoom env view t.dstKey id)
    (hn : view.line t.dstKey = none → lines t.dstKey = none)
    (hsome : ∀ line, view.line t.dstKey = some line → ∃ line', lines t.dstKey = some line' ∧
      code (credit env line t.dstHigh (t.actingAcc = t.dst) t.dstAmt) =
        code (credit env line' t.dstHigh (t.actingAcc = t.dst) t.dstAmt)) :
    code (t.creditDst env true sleDstAcc view) =
      code (t.creditDst env false sleDstAcc { view with line := lines }) := by
  unfold creditDst
  by_cases hdst : t.dst = t.issue.account
  · rw [if_pos hdst, if_pos hdst]
    rfl
  rw [if_neg hdst, if_neg hdst]
  cases hline : view.line t.dstKey with
  | none =>
    have hroom' := hroom hdst hline
    have hcre : Succeeds (trustCreate env { view with line := lines } t.issue.account t.dst
        t.issue.currency (!sleDstAcc.defaultRipple) t.dstAmt) := by
      have hkey : lineKey t.issue.account t.dst t.issue.currency = t.dstKey := lineKey_comm _ _ _
      refine trustCreate_succeeds (fun h => hdst h.symm) hroot ?_ ?_
      all_goals
        rw [hkey]
        exact hroom' _ (by simp)
    obtain ⟨view', hview'⟩ := hcre
    dsimp only
    rw [hn hline]
    refine code_bind_eq rfl fun _ _ _ _ => code_bind_eq rfl fun _ _ _ _ => ?_
    exact (congrArg code hview').symm
  | some line =>
    obtain ⟨line', hline', hcred⟩ := hsome line hline
    dsimp only
    rw [hline']
    exact code_bind_eq hcred fun _ _ _ _ => rfl

theorem Transfer.dstAmt_le (hrate : parityRate ≤ t.lXferRate) (hpos : 0 < t.amount) :
    t.dstAmt ≤ t.amount := by
  unfold dstAmt
  split
  · have hpar : (0 : ℚ) < parityRate := by norm_num [parityRate]
    have hrate' : (parityRate : ℚ) ≤ t.lXferRate := Nat.cast_le.mpr hrate
    rw [sub_sub_cancel, div_le_iff₀ (hpar.trans_le hrate')]
    exact mul_le_mul_of_nonneg_left hrate' hpos.le
  · exact le_rfl

/-- A credit to the line the amount was taken from has the same result as before, if there is room
there. -/
theorem code_credit_debited {acting : Bool} {dstAmt : ℚ}
    (hbal : inTerms high line'.balance = inTerms high line.balance - amount)
    (hside : line'.side high = line.side high) (harr : 0 ≤ dstAmt) (hamo : 0 ≤ amount)
    (hlim : acting = true ∨ inTerms high line.balance + dstAmt ≤ (line.side high).limit)
    (hadd : env.isAddable (inTerms high line.balance) dstAmt =
      env.isAddable (inTerms high line.balance - amount) dstAmt) :
    code (credit env line high acting dstAmt) = code (credit env line' high acting dstAmt) := by
  unfold credit
  dsimp only
  rw [hbal, hside, hadd]
  have hmore : ∀ x : ℚ, ¬ x + dstAmt < x := fun x => not_lt.mpr (le_add_of_nonneg_right harr)
  have hfits : ∀ x, x ≤ inTerms high line.balance →
      ¬ ((line.side high).limit < x + dstAmt ∧ acting = false) := by
    rintro x hx ⟨hover, hact⟩
    rcases hlim with hlim | hlim
    · exact absurd (hact.symm.trans hlim) Bool.false_ne_true
    · linarith
  rw [failIf_of_not (hmore _), failIf_of_not (hmore _), failIf_of_not (hfits _ le_rfl),
    failIf_of_not (hfits _ (sub_le_self _ hamo))]
  exact code_bind_eq rfl fun _ _ _ _ => code_bind_eq rfl fun _ _ _ _ =>
    code_bind_eq rfl fun _ _ _ _ => rfl

theorem debitLocked_side {deltaLockCount : Int}
    (h : debitLocked env line high amount deltaLockCount = .ok line') (high' : Bool) :
    line'.side high' = line.side high' := by
  unfold debitLocked at h
  split at h
  next =>
    replace h := of_check (of_check (of_check (of_check h)))
    cases h
    unfold RippleState.setLocked
    split <;> rfl
  next => exact nomatch h

theorem Transfer.srcKey_ne_dstKey (hsrc : t.src ≠ t.issue.account) (hne : t.src ≠ t.dst) :
    t.srcKey ≠ t.dstKey := by
  intro hkey
  obtain ⟨-, ⟨heq, -⟩ | ⟨hissr, -⟩⟩ := lineKey_eq_lineKey hkey
  · exact hne heq
  · exact hsrc hissr

/-- **Both runs have the same result code** on a plain view. -/
theorem Transfer.Plain.sameCode (h : t.Plain env view) :
    code (trustTransferLockedBalance env t true view) =
      code (trustTransferLockedBalance env t false view) := by
  rw [trustTransferLockedBalance_eq, trustTransferLockedBalance_eq]
  refine code_bind_eq rfl fun sleDstAcc sleDstAcc' hche hche' => ?_
  cases hche.symm.trans hche'
  obtain ⟨hpos, root, hroot⟩ := checks_eq_ok hche
  refine code_bind_eq code_debit fun view₁ view₁' hdry hwet => ?_
  obtain rfl := debit_dry hdry
  refine code_bind_eq ?_ fun _ _ _ _ => rfl
  rcases debit_wet hwet with ⟨-, rfl⟩ | ⟨hsrc, line, line', hline, hdeb, rfl⟩
  · exact code_creditDst hroot h.room id fun line hline => ⟨line, hline, rfl⟩
  refine code_creditDst hroot h.room ?_ ?_
  · intro hn
    have hkey : t.srcKey ≠ t.dstKey := fun hkey =>
      absurd ((hkey ▸ hline).symm.trans hn) (Option.some_ne_none line)
    exact (update_of_ne hkey.symm _ _).trans hn
  intro dstLine hdstLine
  by_cases hself : t.src = t.dst
  · have hkey : t.dstKey = t.srcKey := by
      rw [dstKey, srcKey, hself]
    have hhigh : t.dstHigh = t.srcHigh := by
      rw [dstHigh, srcHigh, hself]
    rw [hkey, hline] at hdstLine
    cases hdstLine
    obtain ⟨hlim, hadd⟩ := h.self hself line hline
    refine ⟨line', ?_, ?_⟩
    · rw [hkey]
      exact update_self _ _ _
    rw [hhigh]
    exact code_credit_debited (debitLocked_balance hdeb) (debitLocked_side hdeb _)
      (dstAmt_nonneg hpos) hpos.le (hlim.imp_left fun h => decide_eq_true h) hadd
  · have hkey := srcKey_ne_dstKey hsrc hself
    exact ⟨dstLine, (update_of_ne hkey.symm _ _).trans hdstLine, rfl⟩

/-! ## What is moved -/

theorem heldBalance_congr
    (h : view'.line (holderLine account issue) = view.line (holderLine account issue)) :
    heldBalance account issue view' = heldBalance account issue view := by
  unfold heldBalance
  rw [h]

theorem heldBalance_of_line (h : view.line (holderLine account issue) = some line) :
    heldBalance account issue view = inTerms (holderHigh account issue) line.balance := by
  unfold heldBalance
  rw [h]
  rfl

theorem heldBalance_setLine_of_ne (hkey : holderLine account issue ≠ key) (line : RippleState) :
    heldBalance account issue (view.setLine key line) = heldBalance account issue view :=
  heldBalance_congr (update_of_ne hkey _ _)

theorem heldBalance_setLine_self (line : RippleState) :
    heldBalance account issue (view.setLine (holderLine account issue) line) =
      inTerms (holderHigh account issue) line.balance :=
  heldBalance_of_line (update_self _ _ _)

theorem Transfer.releaseReserve_held :
    heldBalance account issue (t.releaseReserve view) = heldBalance account issue view := by
  unfold releaseReserve
  split
  · rfl
  split
  · rfl
  next line hline =>
    dsimp only
    split
    · rw [heldBalance_congr (congrFun (View.line_adjustOwnerCount _ _ _) _)]
      by_cases hkey : holderLine account issue = t.srcKey
      · rw [← hkey] at hline ⊢
        rw [heldBalance_setLine_self, heldBalance_of_line hline, RippleState.balance_setSide]
      · exact heldBalance_setLine_of_ne hkey _
    · rfl

/-- **What the debit takes** from what the source has. -/
theorem Transfer.debit_held_src (h : t.debit env false view = .ok view')
    (hsrc : t.src ≠ t.issue.account) :
    heldBalance t.src t.issue view' = heldBalance t.src t.issue view - t.amount := by
  rcases debit_wet h with ⟨hissr, -⟩ | ⟨-, line, line', hline, hdeb, rfl⟩
  · exact absurd hissr hsrc
  have hhigh : t.srcHigh = holderHigh t.src t.issue := (holderHigh_eq hsrc.symm).symm
  rw [hhigh] at hdeb
  refine (heldBalance_setLine_self line').trans ?_
  rw [heldBalance_of_line (hline : view.line (holderLine t.src t.issue) = some line)]
  exact debitLocked_balance hdeb

theorem Transfer.debit_held_of_ne (h : t.debit env false view = .ok view')
    (hacc : account ≠ t.issue.account) (hne : account ≠ t.src) :
    heldBalance account t.issue view' = heldBalance account t.issue view := by
  rcases debit_wet h with ⟨-, rfl⟩ | ⟨-, line, line', -, -, rfl⟩
  · rfl
  refine heldBalance_setLine_of_ne (fun hkey => ?_) line'
  obtain ⟨-, ⟨heq, -⟩ | ⟨hissr, -⟩⟩ := lineKey_eq_lineKey hkey
  · exact hne heq
  · exact hacc hissr

section

variable (h : t.creditDst env false sleDstAcc view = .ok view')

include h

theorem Transfer.creditDst_wet (hdst : t.dst ≠ t.issue.account) :
    ∃ line, view'.line = update view.line t.dstKey (some line) ∧
      inTerms (holderHigh t.dst t.issue) line.balance =
        heldBalance t.dst t.issue view + t.dstAmt := by
  obtain ⟨hissr, -⟩ | ⟨-, ⟨hn, h⟩ | ⟨line, line', hline, hcre, rfl⟩⟩ := creditDst_cases h
  · exact absurd hissr hdst
  · obtain ⟨line, hlin, hbal, -⟩ := trustCreate_line h
    rw [lineKey_comm] at hlin hbal
    refine ⟨line, hlin, ?_⟩
    have hhigh : decide ((lineKey t.dst t.issue.account t.issue.currency).high = t.dst) =
        holderHigh t.dst t.issue := by
      rw [lineKey_comm]
      refine decide_eq_decide.mpr ((lineKey_high_eq_iff hdst.symm _).trans ?_)
      rw [lineKey_comm]
      rfl
    have hzero : heldBalance t.dst t.issue view = 0 := by
      unfold heldBalance
      rw [show view.line (holderLine t.dst t.issue) = none from hn]
      rfl
    rw [hbal, hhigh, inTerms_inTerms, hzero, zero_add]
  · refine ⟨line', rfl, ?_⟩
    have hhigh : t.dstHigh = holderHigh t.dst t.issue := (holderHigh_eq hdst.symm).symm
    rw [heldBalance_of_line (hline : view.line (holderLine t.dst t.issue) = some line), ← hhigh]
    replace hcre := of_check (of_check (of_check hcre))
    cases hcre
    exact inTerms_inTerms _ _

/-- **What the credit gives** to the destination. -/
theorem Transfer.creditDst_held_dst (hdst : t.dst ≠ t.issue.account) :
    heldBalance t.dst t.issue view' = heldBalance t.dst t.issue view + t.dstAmt := by
  obtain ⟨line, hlin, hbal⟩ := creditDst_wet h hdst
  rw [← hbal]
  refine heldBalance_of_line ?_
  rw [hlin]
  exact update_self _ _ _

theorem Transfer.creditDst_held_of_ne (hacc : account ≠ t.issue.account) (hne : account ≠ t.dst) :
    heldBalance account t.issue view' = heldBalance account t.issue view := by
  rcases creditDst_cases h with ⟨-, rfl⟩ | ⟨hdst, -⟩
  · rfl
  obtain ⟨line, hlin, -⟩ := creditDst_wet h hdst
  refine heldBalance_congr ?_
  rw [hlin]
  refine update_of_ne (fun hkey => ?_) _ _
  obtain ⟨-, ⟨heq, -⟩ | ⟨hissr, -⟩⟩ := lineKey_eq_lineKey hkey
  · exact hne heq
  · exact hacc hissr

end

/-- **What a transfer takes from the locked balance** of the source. -/
theorem Transfer.Plain.locked (h : t.Plain env view) (hsrc : t.src ≠ t.issue.account)
    (hwet : trustTransferLockedBalance env t false view = .ok view') :
    lockedBalance t.src t.issue view' = lockedBalance t.src t.issue view - t.amount := by
  obtain ⟨hpos, hdeb⟩ := trustTransferLockedBalance_eq_ok hwet
  rcases hdeb with ⟨hissr, -⟩ | ⟨-, line, line', hline, hdeb, hh⟩
  · exact absurd hissr hsrc
  have hhigh : t.srcHigh = holderHigh t.src t.issue := (holderHigh_eq hsrc.symm).symm
  obtain ⟨-, -, hlock⟩ := debitLocked_eq_ok hdeb
  rw [hhigh, ← View.lock_of_line hline] at hlock
  have hlock' : view'.lock (holderLine t.src t.issue) =
      store (holderHigh t.src t.issue) (lockedBalance t.src t.issue view - t.amount)
        ((view.lock t.srcKey).count + .ofInt t.deltaLockCount) := by
    rw [show view'.lock = _ from congrArg Holds.lock hh]
    exact (update_self _ _ _).trans hlock
  show LockFields.balance (view'.lock (holderLine t.src t.issue)) (holderHigh t.src t.issue) = _
  rw [hlock']
  by_cases hzero : lockedBalance t.src t.issue view - t.amount = 0 ∨
      (view.lock t.srcKey).count + .ofInt t.deltaLockCount = 0
  · rw [(store_of_zero _ hzero).1]
    rcases hzero with hzero | hzero
    · exact hzero.symm
    rcases h.count hsrc with hcount | hall
    · exact absurd hzero hcount
    · exact (sub_eq_zero.mpr hall).symm
  · exact (store_of_ne _ hzero).1

theorem Transfer.Plain.moved (h : t.Plain env view)
    (hwet : trustTransferLockedBalance env t false view = .ok view') : t.Moved view view' := by
  have hloc := fun hsrc => h.locked hsrc hwet
  rw [trustTransferLockedBalance_eq] at hwet
  obtain ⟨sleDstAcc, hche, hwet⟩ := bind_eq_ok.mp hwet
  obtain ⟨view₁, hdeb, hwet⟩ := bind_eq_ok.mp hwet
  obtain ⟨view₂, hcre, hwet⟩ := bind_eq_ok.mp hwet
  obtain ⟨hpos, -⟩ := checks_eq_ok hche
  have hheld : ∀ account, heldBalance account t.issue view' = heldBalance account t.issue view₂ := by
    intro account
    cases hwet
    exact releaseReserve_held
  refine ⟨t.dstAmt, dstAmt_nonneg hpos, dstAmt_le h.rate hpos,
    fun hsrc => ⟨?_, hloc hsrc⟩, fun hdst => ?_⟩
  · rw [hheld]
    split
    next hself =>
      rw [← debit_held_src hdeb hsrc]
      have hdst : t.dst ≠ t.issue.account := hself ▸ hsrc
      rw [hself]
      exact creditDst_held_dst hcre hdst
    next hself =>
      rw [add_zero, creditDst_held_of_ne hcre hsrc hself]
      exact debit_held_src hdeb hsrc
  · rw [hheld, creditDst_held_dst hcre hdst]
    split
    next hself =>
      rw [← hself, debit_held_src hdeb (hself ▸ hdst)]
      ring
    next hself =>
      rw [sub_zero, debit_held_of_ne hdeb hdst (Ne.symm hself)]

/-- The holder has 100 tokens and accepts no more, and some of them are locked. -/
def sampleLocked (locked : ℚ) : View :=
  { sampleLedger with
    line := fun key =>
      if key = lineKey sampleHolder sampleIssuer sampleCurrency then
        some { balance := 100, low := { limit := 100 }, high := {}, lockedBalance := some locked
               lockCount := some 1 }
      else if key = lineKey sampleDestination sampleIssuer sampleCurrency then
        some { balance := 0, low := {}, high := { limit := 50 } }
      else none }

/-- The destination asks for 10 locked tokens to be given to an account. -/
def sampleTransfer (dst : AccountID) : Transfer where
  actingAcc := sampleDestination
  src := sampleHolder
  dst := dst
  issue := sampleIssue
  amount := 10
  deltaLockCount := -1
  lXferRate := parityRate

end Xahau.Token
