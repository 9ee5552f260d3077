import Xahau.Token.DryRun

/-! # Reserves for lines (`View.cpp`, `SetTrust.cpp`)

An account needs a reserve for a line unless its side is in default state. The rule that is applied
after a transfer looks for `lsfDefaultRipple` in the flags of the line and not of the account, and
takes any balance, not only a positive one, for a reason to keep the reserve. -/

namespace Xahau.Token

open Checked Function Holds LockFields Transfer

variable {acc : AccountRoot} {high : Bool} {line line' : RippleState}

variable {env : Env} {view view' : View} {t : Transfer}

/-! ## Two rules for one reserve -/

/-- `bHighReserveSet` or `bLowReserveSet` of `SetTrust::doApply`. -/
def reserveSet (acc : AccountRoot) (high : Bool) (line : RippleState) : Bool :=
  let side := line.side high
  let qualityIn := if side.qualityIn = qualityOne then 0 else side.qualityIn
  let qualityOut := if side.qualityOut = qualityOne then 0 else side.qualityOut
  decide (qualityIn ≠ 0 ∨ qualityOut ≠ 0 ∨ decide (side.noRipple = false) ≠ acc.defaultRipple ∨
    side.freeze = true ∨ side.limit ≠ 0 ∨ 0 < inTerms high line.balance)

/-- A side that needs a reserve anyway: it has a limit, a quality or a freeze. -/
def Side.Engaged (side : Side) : Prop :=
  side.freeze = true ∨ side.limit ≠ 0 ∨ ¬ (side.qualityIn = 0 ∨ side.qualityIn = qualityOne) ∨
    ¬ (side.qualityOut = 0 ∨ side.qualityOut = qualityOne)

theorem reserveSet_eq_true :
    reserveSet acc high line = true ↔ (line.side high).Engaged ∨
      (line.side high).noRipple = acc.defaultRipple ∨ 0 < inTerms high line.balance := by
  have hqua : ∀ q : Nat, (if q = qualityOne then 0 else q) ≠ 0 ↔ ¬ (q = 0 ∨ q = qualityOne) := by
    intro q
    by_cases hone : q = qualityOne <;> simp [hone]
  have hrip : decide ((line.side high).noRipple = false) ≠ acc.defaultRipple ↔
      (line.side high).noRipple = acc.defaultRipple := by
    cases (line.side high).noRipple <;> cases acc.defaultRipple <;> decide
  unfold reserveSet Side.Engaged
  rw [decide_eq_true_iff, hqua, hqua, hrip]
  tauto

theorem isTrustDefault_eq_true :
    isTrustDefault high line = true ↔ ¬ (line.side high).Engaged ∧
      ¬ (line.high.freeze = true ∧ (line.side high).noRipple = true) ∧
      line.balance = 0 ∧ line.lockedBalance = none := by
  unfold isTrustDefault Side.Engaged
  rw [decide_eq_true_iff, ← Bool.not_eq_true]
  tauto

/-- Where the two rules agree, by the flags and balances of the line. -/
def DefaultCondition (acc : AccountRoot) (high : Bool) (line : RippleState) : Prop :=
  (line.side high).Engaged ∨
    if (line.side high).noRipple = acc.defaultRipple then
      line.balance ≠ 0 ∨ line.lockedBalance ≠ none ∨
        line.high.freeze = true ∧ (line.side high).noRipple = true
    else
      0 < inTerms high line.balance ∨ line.balance = 0 ∧ line.lockedBalance = none ∧
        ¬ (line.high.freeze = true ∧ (line.side high).noRipple = true)

/-- **Where the two rules agree.** -/
theorem isTrustDefault_iff :
    (isTrustDefault high line = true ↔ reserveSet acc high line = false) ↔
      DefaultCondition acc high line := by
  rw [← Bool.not_eq_true, reserveSet_eq_true, isTrustDefault_eq_true]
  unfold DefaultCondition
  have hpos : 0 < inTerms high line.balance → line.balance ≠ 0 := by
    intro hpos hzero
    rw [hzero, inTerms_zero] at hpos
    exact lt_irrefl 0 hpos
  split <;> tauto

/-! ## The reserve after a transfer -/

/-- What the source has on its line after a transfer. -/
def Transfer.left (t : Transfer) (line : RippleState) : ℚ :=
  inTerms t.srcHigh line.balance - t.amount + (if t.src = t.dst then t.dstAmt else 0)

theorem credit_side {acting : Bool} {dstAmt : ℚ}
    (h : credit env line high acting dstAmt = .ok line') :
    (∀ high', line'.side high' = line.side high') ∧
      inTerms high line'.balance = inTerms high line.balance + dstAmt := by
  replace h := of_check (of_check (of_check h))
  cases h
  exact ⟨fun _ => rfl, inTerms_inTerms _ _⟩

/-- The line of the source before its reserve is looked at. -/
structure Transfer.Paid (t : Transfer) (line line' : RippleState) : Prop where
  side : ∀ high, line'.side high = line.side high
  balance : inTerms t.srcHigh line'.balance = t.left line
  lock : line'.lock = store t.srcHigh (line.lock.balance t.srcHigh - t.amount)
    (line.lock.count + .ofInt t.deltaLockCount)

/-- **The line of the source after the amount was taken and given.** -/
theorem Transfer.paid {view₁ view₂ : View} {sleDstAcc : AccountRoot}
    (hdeb : t.debit env false view = .ok view₁)
    (hcre : t.creditDst env false sleDstAcc view₁ = .ok view₂) (hsrc : t.src ≠ t.issue.account)
    (hline : view.line t.srcKey = some line) :
    ∃ line', view₂.line t.srcKey = some line' ∧ t.Paid line line' := by
  rcases debit_wet hdeb with ⟨hissr, -⟩ | ⟨-, line₀, line₁, hline₀, hdeb, rfl⟩
  · exact absurd hissr hsrc
  cases hline.symm.trans hline₀
  have hline₁ : (view.setLine t.srcKey line₁).line t.srcKey = some line₁ := update_self _ _ _
  have hbal := debitLocked_balance hdeb
  have hlock := (debitLocked_eq_ok hdeb).2.2
  by_cases hself : t.src = t.dst
  · have hkey : t.dstKey = t.srcKey := by rw [dstKey, srcKey, hself]
    have hhigh : t.dstHigh = t.srcHigh := by rw [dstHigh, srcHigh, hself]
    unfold creditDst at hcre
    rw [if_neg (hself ▸ hsrc), hkey, hline₁, hhigh] at hcre
    obtain ⟨line₂, hcred, hcre⟩ := bind_eq_ok.mp hcre
    obtain ⟨hside, hgiv⟩ := credit_side hcred
    refine ⟨line₂, ?_, ?_, ?_, (credit_eq_ok hcred).trans hlock⟩
    · cases hcre
      exact update_self _ _ _
    · exact fun high => (hside high).trans (debitLocked_side hdeb high)
    · rw [left, if_pos hself, hgiv, hbal]
  · refine ⟨line₁, ?_, debitLocked_side hdeb, ?_, hlock⟩
    · rcases creditDst_cases hcre with ⟨-, rfl⟩ | ⟨hdst, -⟩
      · exact hline₁
      · obtain ⟨line', hlin, -⟩ := creditDst_wet hcre hdst
        rw [hlin, update_of_ne (srcKey_ne_dstKey hsrc hself)]
        exact hline₁
    · rw [left, if_neg hself, add_zero, hbal]

/-- **The flag after a transfer** is set if it was, unless in default state. -/
theorem Transfer.reserve_after (acc : AccountRoot)
    (hsrc : t.src ≠ t.issue.account) (hline : view.line t.srcKey = some line)
    (hres : (line.side t.srcHigh).reserve = true) :
    ∃ line', (t.releaseReserve view).line t.srcKey = some line' ∧
      ((line'.side t.srcHigh).reserve = true ↔ ¬ isTrustDefault t.srcHigh line = true) ∧
      reserveSet acc t.srcHigh line' = reserveSet acc t.srcHigh line := by
  unfold releaseReserve
  rw [if_neg hsrc, hline]
  dsimp only
  by_cases hdefa : isTrustDefault t.srcHigh line = true
  · rw [if_pos ⟨hdefa, hres⟩]
    rw [View.line_adjustOwnerCount]
    refine ⟨_, update_self .., iff_of_false ?_ (not_not.mpr hdefa), ?_⟩
    · cases t.srcHigh <;> exact Bool.false_ne_true
    · cases t.srcHigh <;> rfl
  · rw [if_neg fun h => hdefa h.1]
    exact ⟨line, hline, iff_of_true hres hdefa, rfl⟩

/-- Where the flag after a transfer is right, by the line before it. -/
def Transfer.ReserveCondition (t : Transfer) (acc : AccountRoot) (line : RippleState) : Prop :=
  (line.side t.srcHigh).Engaged ∨ 0 < t.left line ∨
    ((line.side t.srcHigh).noRipple = acc.defaultRipple ↔
      line.high.freeze = true ∧ (line.side t.srcHigh).noRipple = true)

section

variable (h : t.Paid line line') (hloc : t.amount ≤ line.lock.balance t.srcHigh)
  (hbacked : line.lock.balance t.srcHigh ≤ inTerms t.srcHigh line.balance) (harr : 0 ≤ t.dstAmt)

include h hloc hbacked harr

theorem Transfer.Paid.lockedBalance_eq_none
    (hzero : t.left line = 0) : line'.lockedBalance = none := by
  have hleft : inTerms t.srcHigh line.balance - t.amount ≤ t.left line := by
    refine le_add_of_nonneg_right ?_
    split
    · exact harr
    · exact le_rfl
  have hnot : line.lock.balance t.srcHigh - t.amount = 0 := by linarith
  have hlock := h.lock
  rw [store, if_pos (.inl hnot)] at hlock
  exact congrArg Prod.fst hlock

theorem Transfer.Paid.defaultCondition_iff :
    DefaultCondition acc t.srcHigh line' ↔ t.ReserveCondition acc line := by
  have hhigh : line'.high = line.high := h.side true
  unfold DefaultCondition Transfer.ReserveCondition
  rw [h.side, h.balance, hhigh]
  by_cases hleft : 0 < t.left line
  · have hne : line'.balance ≠ 0 := by
      intro hzero
      rw [← h.balance, hzero, inTerms_zero] at hleft
      exact lt_irrefl 0 hleft
    refine iff_of_true (.inr ?_) (.inr (.inl hleft))
    split
    · exact .inl hne
    · exact .inl hleft
  · have hnn : 0 ≤ t.left line := by
      refine add_nonneg (by linarith) ?_
      split
      · exact harr
      · exact le_rfl
    have hzero : t.left line = 0 := le_antisymm (not_lt.mp hleft) hnn
    have hbal : line'.balance = 0 := by
      rw [← inTerms_inTerms t.srcHigh line'.balance, h.balance, hzero, inTerms_zero]
    have hn := h.lockedBalance_eq_none hloc hbacked harr hzero
    refine or_congr_right ?_
    split
    next hrip => simp [hbal, hn, hleft, hrip]
    next hrip => simp [hbal, hn, hleft, hrip]

end

/-- **The reserve after a transfer** is right iff the condition holds, if it was. -/
theorem Transfer.reserve_iff (hwet : trustTransferLockedBalance env t false view = .ok view')
    (hsrc : t.src ≠ t.issue.account) (hline : view.line t.srcKey = some line)
    (hbef : (line.side t.srcHigh).reserve = reserveSet acc t.srcHigh line)
    (hbacked : line.lock.balance t.srcHigh ≤ inTerms t.srcHigh line.balance) :
    (∃ line', view'.line t.srcKey = some line' ∧
      (line'.side t.srcHigh).reserve = reserveSet acc t.srcHigh line') ↔
      t.ReserveCondition acc line := by
  rw [trustTransferLockedBalance_eq] at hwet
  obtain ⟨sleDstAcc, hche, hwet⟩ := bind_eq_ok.mp hwet
  obtain ⟨view₁, hdeb, hwet⟩ := bind_eq_ok.mp hwet
  obtain ⟨view₂, hcre, hwet⟩ := bind_eq_ok.mp hwet
  obtain ⟨hpos, -⟩ := checks_eq_ok hche
  obtain ⟨line₂, hline₂, hpaid⟩ := paid hdeb hcre hsrc hline
  have hloc : t.amount ≤ line.lock.balance t.srcHigh := by
    rcases debit_wet hdeb with ⟨hissr, -⟩ | ⟨-, line₀, line₁, hline₀, hdeb, -⟩
    · exact absurd hissr hsrc
    · cases hline.symm.trans hline₀
      exact (debitLocked_eq_ok hdeb).1
  -- the source has tokens, so that the flag was set
  have hset : (line₂.side t.srcHigh).reserve = true := by
    rw [hpaid.side, hbef, reserveSet_eq_true]
    exact .inr (.inr (hpos.trans_le (hloc.trans hbacked)))
  obtain ⟨line', hline', hres, hrule⟩ := reserve_after acc hsrc hline₂ hset
  rw [← hpaid.defaultCondition_iff hloc hbacked (dstAmt_nonneg hpos), ← isTrustDefault_iff]
  have hview' : view'.line t.srcKey = some line' := by
    cases hwet
    exact hline'
  constructor
  · rintro ⟨line'', hline'', hrig⟩
    cases hview'.symm.trans hline''
    rw [Bool.eq_iff_iff, hres, hrule] at hrig
    rw [← Bool.not_eq_true, ← hrig, not_not]
  · intro hagr
    refine ⟨line', hview', ?_⟩
    rw [Bool.eq_iff_iff, hres, hrule, hagr, ← Bool.not_eq_true, not_not]

/-- **Where the default state of a side is what `SetTrust` takes for it**, and where the source's
reserve is right after a transfer, if it was before and the source had what was locked. -/
theorem trustDefault_right_iff (acc : AccountRoot) :
    (∀ (high : Bool) (line : RippleState),
      (isTrustDefault high line = true ↔ reserveSet acc high line = false) ↔
        DefaultCondition acc high line) ∧
    ∀ (env : Env) (t : Transfer) (view view' : View) (line : RippleState),
      trustTransferLockedBalance env t false view = .ok view' → t.src ≠ t.issue.account →
      view.account t.src = some acc → view.line t.srcKey = some line →
      (line.side t.srcHigh).reserve = reserveSet acc t.srcHigh line →
      line.lock.balance t.srcHigh ≤ inTerms t.srcHigh line.balance →
      ((∃ line', view'.line t.srcKey = some line' ∧
        (line'.side t.srcHigh).reserve = reserveSet acc t.srcHigh line') ↔
        t.ReserveCondition acc line) :=
  ⟨fun _ _ => isTrustDefault_iff, fun _ _ _ _ _ hwet hsrc _ hline hbefore hbacked =>
    reserve_iff hwet hsrc hline hbefore hbacked⟩

/-! ## An account that ripples by default -/

/-- The account root of the holder. -/
def sampleRoot (defaultRipple : Bool) : AccountRoot :=
  { balance := 1000, ownerCount := 1, defaultRipple := defaultRipple }

/-- The holder's line, with `lsfLowNoRipple`: 10 tokens, all locked. -/
def sampleNoRipple : RippleState where
  balance := 10
  low := { reserve := true, noRipple := true }
  high := {}
  lockedBalance := some 10
  lockCount := some 1

/-- The holder has 10 tokens on the line. -/
def sampleRippling (defaultRipple : Bool) : View :=
  { sampleLocked 10 with
    account := Function.update sampleLedger.account sampleHolder (some (sampleRoot defaultRipple))
    line := Function.update (sampleLocked 10).line (lineKey sampleHolder sampleIssuer sampleCurrency)
      (some sampleNoRipple) }

/-- The flag is right after all tokens of an account without default rippling went. -/
theorem sampleRippling_right : ∃ view' line',
    trustTransferLockedBalance sampleEnv (sampleTransfer sampleDestination) false
      (sampleRippling false) = .ok view' ∧
    view'.line (sampleTransfer sampleDestination).srcKey = some line' ∧
    (line'.side false).reserve = reserveSet (sampleRoot false) false line' := by
  obtain ⟨view', hwet, -⟩ : ∃ view', trustTransferLockedBalance sampleEnv
      (sampleTransfer sampleDestination) false (sampleRippling false) = .ok view' ∧ True := by
    decide +kernel
  obtain ⟨line', hline', hright⟩ := ((trustDefault_right_iff (sampleRoot false)).2 sampleEnv
    (sampleTransfer sampleDestination) (sampleRippling false) view' sampleNoRipple hwet
    (by decide) (by with_unfolding_all rfl) (by with_unfolding_all rfl) (by decide +kernel)
    (by decide +kernel)).mpr (.inr (.inr (by decide +kernel)))
  exact ⟨view', line', hwet, hline', hright⟩

/-- **The flag is cleared although a reserve is needed**: an account that ripples by default has
`lsfLowNoRipple` on the line. -/
theorem reserve_cleared :
    (isTrustDefault false { sampleNoRipple with balance := 0, lockedBalance := none } = true ∧
      reserveSet (sampleRoot true) false
        { sampleNoRipple with balance := 0, lockedBalance := none } = true) ∧
    ∃ view', trustTransferLockedBalance sampleEnv (sampleTransfer sampleDestination) false
        (sampleRippling true) = .ok view' ∧
      ∃ line' ∈ view'.line (sampleTransfer sampleDestination).srcKey,
        (line'.side false).reserve = false ∧ reserveSet (sampleRoot true) false line' = true := by
  decide +kernel

end Xahau.Token
