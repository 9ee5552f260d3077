import Xahau.Token.Marks

/-! # The locked balance of a line

A line stores the sum of what is locked and a counter, and both are dropped when one of them is
zero. The sum is that of the open escrows and channels after every history in which each transaction
names the token of its channel. -/

namespace Xahau.Token

open Checked Earmarks Function Holds

variable {env : Env} {view view' : View} {holder : AccountID} {issue : Issue}

/-! ## Histories -/

/-- The lock of the line covers what is held. -/
def Holds.Covered (holder : AccountID) (issue : Issue) (s : Holds)
    (held : UInt256 ⊕ UInt256 → ℚ) : Prop :=
  Covers held (s.locked holder issue) (s.lockCount holder issue)

theorem Holds.covered_iff {s : Holds} :
    s.Covered holder issue (s.held holder issue) ↔ (s.marks holder issue).Covered := by
  rw [held_eq_amount]
  exact Iff.rfl

/-- **The locked balance is right**: the line covers what the holder's escrows and channels hold,
and the issuer has no reverse ones. -/
structure Sound (holder : AccountID) (issue : Issue) (s : Holds) : Prop where
  covered : s.Covered holder issue (s.held holder issue)
  escrow : ∀ key slep, s.escrow key = some slep → ¬ Reverse holder issue slep.account slep.amount
  payChan : ∀ key slep, s.payChan key = some slep → ¬ Reverse holder issue slep.account slep.amount

theorem Sound.tracked {s s' : Holds} {P : Prop} (h : Sound holder issue s)
    (htra : Tracked holder issue P s s') : Sound holder issue s' := by
  obtain ⟨acts, hrun, -⟩ := htra.moves
  have hcov := covered_iff.mp h.covered
  exact ⟨covered_iff.mpr (hcov.run hrun), htra.noReverse.escrow, htra.noReverse.payChan⟩

theorem Sound.tracked_tx {tx : Tx} (h : Sound holder issue view.holds)
    (hne : issue.account ≠ holder) (hpla : Plain holder issue view (.tx tx)) :
    Tracked holder issue (Lasting holder issue view (.tx tx)) view.holds (tx.apply env view).holds :=
  Token.tracked_tx hne h.covered.pool_nonneg hpla ⟨h.escrow, h.payChan⟩

theorem sound_tx {tx : Tx} (hne : issue.account ≠ holder) (hpla : Plain holder issue view (.tx tx))
    (h : Sound holder issue view.holds) : Sound holder issue (tx.apply env view).holds :=
  h.tracked (h.tracked_tx hne hpla)

/-- The steps of a ledger in which every event is plain. -/
def PlainStep (env : Env) (holder : AccountID) (issue : Issue) (view : View) (event : Event)
    (view' : View) : Prop :=
  Step env view event view' ∧ Plain holder issue view event

theorem sound_run {events : List Event} (hne : issue.account ≠ holder)
    (hrun : Run (PlainStep env holder issue) view events view') (h : Sound holder issue view.holds) :
    Sound holder issue view'.holds := by
  refine hrun.invariant (fun _ v => Sound holder issue v.holds) h ?_
  rintro - t e u ht ⟨hstep, hpla⟩
  cases hstep with
  | tx tx => exact sound_tx hne hpla ht
  | other hh =>
    rw [hh]
    exact ht

/-- Neither the holder nor the issuer has locked tokens of the other one. -/
structure Fresh (holder : AccountID) (issue : Issue) (view : View) : Prop where
  lock : view.lock (holderLine holder issue) = (none, none)
  escrow : ∀ key slep, view.escrow key = some slep →
    ¬ (slep.account = holder ∧ slep.amount.issue = some issue) ∧
      ¬ Reverse holder issue slep.account slep.amount
  payChan : ∀ key slep, view.payChan key = some slep →
    ¬ (slep.account = holder ∧ slep.amount.issue = some issue) ∧
      ¬ Reverse holder issue slep.account slep.amount

section

variable (h : Fresh holder issue view)

include h

theorem Fresh.marked (object : UInt256 ⊕ UInt256) :
    view.holds.marked holder issue object = none := by
  rcases object with key | key
  · show escrowMark holder issue (view.escrow key) = none
    cases hslep : view.escrow key with
    | none => rfl
    | some slep => exact mark_of_not (h.escrow key slep hslep).1
  · show payChanMark holder issue (view.payChan key) = none
    cases hslep : view.payChan key with
    | none => rfl
    | some slep => exact mark_of_not (h.payChan key slep hslep).1

theorem Fresh.locked : view.holds.locked holder issue = 0 := by
  rw [Holds.locked, show view.holds.lock (holderLine holder issue) = (none, none) from h.lock]
  exact LockFields.inTerms_zero _

theorem Fresh.lockCount : view.holds.lockCount holder issue = 0 := by
  rw [Holds.lockCount, show view.holds.lock (holderLine holder issue) = (none, none) from h.lock]
  rfl

theorem Fresh.sound : Sound holder issue view.holds where
  covered := by
    rw [Covered, h.locked, h.lockCount, held_eq_amount]
    exact covers_zero fun object => Marks.amount_of_free (h.marked object)
  escrow key slep hslep := (h.escrow key slep hslep).2
  payChan key slep hslep := (h.payChan key slep hslep).2

end

/-- **The locked balance of a line is the sum of the remaining amounts** of the holder's open
escrows and channels in the token, after every history in which the issuer locks no tokens of the
holder, and each channel is funded and claimed in its own token. -/
theorem locked_eq_total (env : Env) {holder : AccountID} {issue : Issue} {view view' : View}
    {events : List Event} (hne : issue.account ≠ holder) (hfresh : Fresh holder issue view)
    (hrun : Run (PlainStep env holder issue) view events view') :
    view'.holds.locked holder issue = Total.total (view'.holds.held holder issue) :=
  (sound_run hne hrun hfresh.sound).covered.sum

/-! ## A channel that is funded with tokens of its owner -/

def sampleCurrency : Currency := currencyOf 0x55 0x53 0x44

/-- An account that holds tokens. -/
def sampleHolder : AccountID := .ofByte 1

/-- An account that issues tokens. -/
def sampleIssuer : AccountID := .ofByte 2

/-- An account that receives tokens. -/
def sampleDestination : AccountID := .ofByte 3

def sampleIssue : Issue := ⟨sampleCurrency, sampleIssuer⟩

/-- No sum loses precision, and there is one key for escrows and one for channels. -/
def sampleEnv : Env where
  isAddable _ _ := true
  lineIndex _ := .zero
  escrowKeylet _ _ := .ofByte 1
  payChanKeylet _ _ _ := .ofByte 2
  conditionCheck _ _ := .ok ⟨⟩
  checkCondition _ _ := true

/-- The holder has 100 tokens, and nothing is locked. -/
def sampleLedger : View where
  rules := ⟨fun _ => true⟩
  fees := ⟨10, 2, 10⟩
  parentCloseTime := 100
  account id :=
    if id ∈ [sampleHolder, sampleIssuer, sampleDestination] then
      some { balance := 1000, ownerCount := 0 }
    else none
  line key :=
    if key = lineKey sampleHolder sampleIssuer sampleCurrency then
      some { balance := 100, low := {}, high := {} }
    else none
  escrow _ := none
  payChan _ := none
  ownerDir _ := .empty
  depositPreauth _ _ := false

theorem sampleLedger_fresh : Fresh sampleHolder sampleIssue sampleLedger where
  lock := by decide +kernel
  escrow _ _ hslep := nomatch hslep
  payChan _ _ hslep := nomatch hslep

/-- The holder opens a channel with 10 tokens. -/
def sampleCreate : PayChanCreate where
  account := sampleHolder
  destination := sampleDestination
  amount := ⟨10, some sampleIssue⟩
  seq := 1
  publicKey := 0xED :: List.replicate 32 0

/-- The holder adds 5 tokens of the same currency that they have issued themselves. -/
def sampleFund : PayChanFund where
  account := sampleHolder
  channel := .ofByte 2
  amount := ⟨5, some ⟨sampleCurrency, sampleHolder⟩⟩

/-- The amount of a channel that was opened is locked. -/
theorem locked_created :
    ((Tx.payChanCreate sampleCreate).apply sampleEnv sampleLedger).holds.locked sampleHolder
        sampleIssue = 10 ∧
      Total.total (((Tx.payChanCreate sampleCreate).apply sampleEnv sampleLedger).holds.held
        sampleHolder sampleIssue) = 10 := by
  have hlocked : ((Tx.payChanCreate sampleCreate).apply sampleEnv sampleLedger).holds.locked
      sampleHolder sampleIssue = 10 := by decide +kernel
  refine ⟨hlocked, ?_⟩
  rw [← hlocked]
  refine (locked_eq_total sampleEnv (by decide) sampleLedger_fresh
    (.single ⟨.tx (.payChanCreate sampleCreate), ?_⟩)).symm
  exact fun hreverse => absurd hreverse.1 (by decide)

/-- The ledger after both transactions. -/
def sampleFunded : View :=
  (Tx.payChanFund sampleFund).apply sampleEnv
    ((Tx.payChanCreate sampleCreate).apply sampleEnv sampleLedger)

theorem sampleFunded_objects : sampleFunded.escrow = (fun _ => none) ∧
    ∃ slep slep', sampleFunded.payChan =
      update (update (fun _ => none) (.ofByte 2) slep) (.ofByte 2) slep' :=
  ⟨by with_unfolding_all rfl, _, _, by with_unfolding_all rfl⟩

/-- **Funding a channel with own tokens locks nothing**: it has 15 tokens, but 10 are locked. -/
theorem funded_without_lock : Fresh sampleHolder sampleIssue sampleLedger ∧
    Run (Step sampleEnv) sampleLedger
      [.tx (.payChanCreate sampleCreate), .tx (.payChanFund sampleFund)] sampleFunded ∧
    sampleFunded.holds.locked sampleHolder sampleIssue = 10 ∧
    Total.total (sampleFunded.holds.held sampleHolder sampleIssue) = 15 := by
  refine ⟨sampleLedger_fresh, Run.trans (.single (.tx _)) (.single (.tx _)), by decide +kernel, ?_⟩
  have hchannel : sampleFunded.holds.held sampleHolder sampleIssue (.inr (.ofByte 2)) = 15 := by
    decide +kernel
  obtain ⟨hescrow, slep, slep', hpayChan⟩ := sampleFunded_objects
  rw [← hchannel]
  refine finsum_eq_single _ _ ?_
  rintro (key | key) hkey
  · show escrowHeld _ _ (sampleFunded.escrow key) = 0
    rw [hescrow]
    rfl
  · have hne : key ≠ .ofByte 2 := fun heq => hkey (congrArg Sum.inr heq)
    show payChanHeld _ _ (sampleFunded.payChan key) = 0
    rw [hpayChan, update_of_ne hne, update_of_ne hne]
    rfl

end Xahau.Token
