import Xahau.Transactor.Ledgers
import Xahau.Transactor.Rewards

/-! # The time of a claim (`ClaimReward.cpp`)

`ClaimReward::doApply` notes the time of the claim in `sfRewardTime`, and takes it from the ledger
that the node has validated last, not from the one being built. Nodes at different points of
validation then write different account roots. -/

namespace Xahau.Transactor

open Hook

namespace ClaimReward

/-- What `doApply` asks of the node: the `parentCloseTime` of the ledger of
`LedgerMaster::getValidatedLedger`, if there is one. -/
structure Node where
  validatedLedger : Option UInt32

/-- A ledger with the `sfRewardTime` of its account roots. -/
structure TimedView where
  view : View
  rewardTime : AccountID → Option UInt32

/-- `sfRewardTime` of an account root is replaced. -/
def TimedView.setRewardTime (ledger : TimedView) (acc : AccountID) (rewardTime : Option UInt32) :
    TimedView :=
  { ledger with rewardTime := Function.update ledger.rewardTime acc rewardTime }

/-- `ClaimReward::doApply` with `sfRewardTime`. -/
def doApplyTimed (node : Node) (tx : STTx) (ledger : TimedView) :
    Except String (Ter × TimedView) :=
  match ledger.view.account tx.account with
  | none => .ok (.tefINTERNAL, ledger)
  | some sle =>
    let isOptOut : Bool := tx.flags = some tfOptOut
    let view :=
      ledger.view.setAccount tx.account (resetCounters isOptOut ledger.view.seq sle)
    if isOptOut then .ok (.tesSUCCESS, { ledger with view }.setRewardTime tx.account none)
    else
      match node.validatedLedger with
      | none => .error "the pointer to the validated ledger is null"
      | some parentCloseTime =>
        .ok (.tesSUCCESS, { ledger with view }.setRewardTime tx.account (some parentCloseTime))

variable {node : Node} {tx : STTx} {ledger : TimedView}

theorem rewardFields_of_doApplyTimed {ledger' : TimedView} {ter : Ter} {sle' : AccountRoot}
    (h : doApplyTimed node tx ledger = .ok (ter, ledger'))
    (hacc : ledger'.view.account tx.account = some sle') (sle : AccountRoot) :
    rewardFields sle'
      = rewardFields (resetCounters (tx.flags = some tfOptOut) ledger'.view.seq sle) := by
  have hfields : ∀ isOptOut lgrCur (sle₁ : AccountRoot),
      rewardFields (resetCounters isOptOut lgrCur sle₁)
        = rewardFields (resetCounters isOptOut lgrCur sle) := by
    intro isOptOut lgrCur sle₁
    cases isOptOut <;> rfl
  unfold doApplyTimed at h
  split at h
  next hnone =>
    cases h
    cases hnone.symm.trans hacc
  dsimp only at h
  split at h
  · cases h
    cases (Function.update_self ..).symm.trans hacc
    exact hfields ..
  split at h <;> cases h
  cases (Function.update_self ..).symm.trans hacc
  exact hfields ..

/-- The node is not asked: there is no account, or the account opts out. -/
def Unasked (tx : STTx) (ledger : TimedView) : Prop :=
  ledger.view.account tx.account = none ∨ tx.flags = some tfOptOut

theorem exists_of_unasked (h : Unasked tx ledger) :
    ∃ r, ∀ node, doApplyTimed node tx ledger = .ok r := by
  unfold doApplyTimed
  cases hacc : ledger.view.account tx.account with
  | none => exact ⟨_, fun _ => rfl⟩
  | some sle =>
    have hfla : tx.flags = some tfOptOut := by
      rcases h with hn | hfla
      · rw [hacc] at hn
        cases hn
      · exact hfla
    simp only [hfla, decide_true, if_true]
    exact ⟨_, fun _ => rfl⟩

theorem rewardTime_of_asked (h : ¬ Unasked tx ledger)
    {r : Ter × TimedView} (hr : doApplyTimed node tx ledger = .ok r) :
    ∃ parentCloseTime, node.validatedLedger = some parentCloseTime ∧
      r.2.rewardTime tx.account = some parentCloseTime := by
  obtain ⟨hacc, hfla⟩ := not_or.mp h
  obtain ⟨sle, hacc⟩ := Option.ne_none_iff_exists'.mp hacc
  unfold doApplyTimed at hr
  rw [hacc] at hr
  simp only [hfla, decide_false, Bool.false_eq_true, if_false] at hr
  cases hnode : node.validatedLedger with
  | none =>
    rw [hnode] at hr
    cases hr
  | some parentCloseTime =>
    rw [hnode] at hr
    cases hr
    exact ⟨parentCloseTime, rfl, Function.update_self ..⟩

/-- **Two nodes agree on a claim** iff they are not asked, or their last validated ledgers have
parents with the same close time. -/
theorem doApply_agree_iff (node₁ node₂ : Node) (tx : STTx) (ledger : TimedView) :
    (∃ r, doApplyTimed node₁ tx ledger = .ok r ∧ doApplyTimed node₂ tx ledger = .ok r) ↔
      Unasked tx ledger ∨ ∃ parentCloseTime, node₁.validatedLedger = some parentCloseTime ∧
        node₂.validatedLedger = some parentCloseTime := by
  constructor
  · rintro ⟨r, h₁, h₂⟩
    rw [or_iff_not_imp_left]
    intro hasked
    obtain ⟨time₁, hnode₁, htime₁⟩ := rewardTime_of_asked hasked h₁
    obtain ⟨time₂, hnode₂, htime₂⟩ := rewardTime_of_asked hasked h₂
    rw [htime₁] at htime₂
    cases htime₂
    exact ⟨time₁, hnode₁, hnode₂⟩
  · rintro (hunasked | ⟨time, hnode₁, hnode₂⟩)
    · obtain ⟨r, hr⟩ := exists_of_unasked hunasked
      exact ⟨r, hr node₁, hr node₂⟩
    · -- nodes with the same time are the same here
      obtain rfl : node₁ = node₂ := by
        cases node₁
        cases node₂
        rw [Node.mk.injEq]
        exact hnode₁.trans hnode₂.symm
      unfold doApplyTimed
      rw [hnode₁]
      dsimp only
      split
      next => exact ⟨_, rfl, rfl⟩
      next =>
        split
        next => exact ⟨_, rfl, rfl⟩
        next => exact ⟨_, rfl, rfl⟩

def sampleClaim : STTx :=
  { transactionID := .ofByte 1, txnType := ttClaimReward, account := owner, issuer := some .zero }

/-- **Nodes that have validated different ledgers write different times.** -/
theorem claim_times_differ :
    ∃ r₁, doApplyTimed ⟨some 100⟩ sampleClaim ⟨emptyView noHooks, fun _ => none⟩ = .ok r₁ ∧
      ∃ r₂, doApplyTimed ⟨some 110⟩ sampleClaim ⟨emptyView noHooks, fun _ => none⟩ = .ok r₂ ∧
        r₁.2.rewardTime owner = some 100 ∧ r₂.2.rewardTime owner = some 110 := by
  decide +kernel

end ClaimReward

end Xahau.Transactor
