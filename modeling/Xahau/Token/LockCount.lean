import Xahau.Token.Locked

/-! # The lock count of a line

Funding a channel counts it once more, and draining a channel drops the counter or leaves it behind.
The counter is the number of open escrows and channels after every history in which no channel of
the holder is funded or drained. -/

namespace Xahau.Token

open Earmarks Function Holds

variable {env : Env} {view view' : View} {holder : AccountID} {issue : Issue}

/-! ## Open objects -/

namespace Holds

variable (holder : AccountID) (issue : Issue)

/-- The open escrows of the holder in the token. -/
def openEscrows (s : Holds) : Set UInt256 :=
  {key | ∃ slep, s.escrow key = some slep ∧ slep.account = holder ∧ slep.amount.issue = some issue}

/-- The open channels of the holder in the token. -/
def openPayChans (s : Holds) : Set UInt256 :=
  {key | ∃ slep, s.payChan key = some slep ∧ slep.account = holder ∧ slep.amount.issue = some issue}

variable {holder issue} {s : Holds}

theorem mark_ne_none {account : AccountID} {amount : STAmount} :
    mark holder issue account amount ≠ none ↔ account = holder ∧ amount.issue = some issue := by
  by_cases hours : account = holder ∧ amount.issue = some issue
  · rw [mark_self hours]
    exact iff_of_true nofun hours
  · rw [mark_of_not hours]
    exact iff_of_false (fun h => h rfl) hours

theorem mem_openEscrows {key : UInt256} :
    key ∈ s.openEscrows holder issue ↔ s.marked holder issue (.inl key) ≠ none := by
  show (∃ slep, s.escrow key = some slep ∧ slep.account = holder ∧ slep.amount.issue = some issue) ↔
    escrowMark holder issue (s.escrow key) ≠ none
  cases s.escrow key with
  | none => simp [escrowMark]
  | some slep => simp [escrowMark, mark_ne_none]

theorem mem_openPayChans {key : UInt256} :
    key ∈ s.openPayChans holder issue ↔ s.marked holder issue (.inr key) ≠ none := by
  show (∃ slep, s.payChan key = some slep ∧ slep.account = holder ∧ slep.amount.issue = some issue) ↔
    payChanMark holder issue (s.payChan key) ≠ none
  cases s.payChan key with
  | none => simp [payChanMark]
  | some slep => simp [payChanMark, mark_ne_none]

theorem ncard_marked : {object | s.marked holder issue object ≠ none}.ncard =
    (s.openEscrows holder issue).ncard + (s.openPayChans holder issue).ncard := by
  have hset : {object | s.marked holder issue object ≠ none} =
      Sum.inl '' s.openEscrows holder issue ∪ Sum.inr '' s.openPayChans holder issue := by
    ext object
    rcases object with key | key
    · simp [mem_openEscrows]
    · simp [mem_openPayChans]
  have hdis : Disjoint (Sum.inl '' s.openEscrows holder issue)
      (Sum.inr '' s.openPayChans holder issue) := by
    rw [Set.disjoint_left]
    rintro _ ⟨key, -, rfl⟩ ⟨key', -, h⟩
    exact absurd h Sum.inr_ne_inl
  rw [hset, Set.ncard_union_eq hdis (Set.toFinite _) (Set.toFinite _),
    Set.ncard_image_of_injective _ Sum.inl_injective,
    Set.ncard_image_of_injective _ Sum.inr_injective]

end Holds

/-! ## Histories -/

/-- Every event is plain, and no channel of the holder in the token is funded or drained. -/
def LastingStep (env : Env) (holder : AccountID) (issue : Issue) (view : View) (event : Event)
    (view' : View) : Prop :=
  Step env view event view' ∧ Plain holder issue view event ∧ Lasting holder issue view event

theorem exact_step {event : Event} (hne : issue.account ≠ holder)
    (hstep : LastingStep env holder issue view event view')
    (h : Sound holder issue view.holds ∧ (view.holds.marks holder issue).Exact) :
    Sound holder issue view'.holds ∧ (view'.holds.marks holder issue).Exact := by
  obtain ⟨hsou, hexa⟩ := h
  obtain ⟨hstep, hpla, hlas⟩ := hstep
  cases hstep with
  | tx tx =>
    have htra : Tracked holder issue (Lasting holder issue view (.tx tx)) view.holds
        (tx.apply env view).holds := hsou.tracked_tx hne hpla
    obtain ⟨acts, hrun, hreg⟩ := htra.moves
    exact ⟨hsou.tracked htra, hexa.run hrun (hreg hlas)⟩
  | other hh =>
    rw [hh]
    exact ⟨hsou, hexa⟩

theorem Fresh.exact (h : Fresh holder issue view) : (view.holds.marks holder issue).Exact where
  covered := covered_iff.mp h.sound.covered
  ne_zero object _ hopen := nomatch (h.marked object).symm.trans hopen
  count_eq := by
    have hn : {object | (view.holds.marks holder issue).held object ≠ none} = ∅ :=
      Set.eq_empty_of_forall_notMem fun object hobj => hobj (h.marked object)
    rw [hn, Set.ncard_empty]
    exact h.lockCount

theorem ncard_open_of_written {s : Holds} (key : UInt256) (hescr : s.escrow = fun _ => none)
    (hpayChan : ∃ slep slep', s.payChan = update (update (fun _ => none) key slep) key slep')
    (hkey : ∃ slep ∈ s.payChan key, slep.account = holder ∧ slep.amount.issue = some issue) :
    (s.openEscrows holder issue).ncard + (s.openPayChans holder issue).ncard = 1 := by
  obtain ⟨slep, slep', hpayChan⟩ := hpayChan
  have hesc : s.openEscrows holder issue = ∅ :=
    Set.eq_empty_of_forall_notMem fun key' ⟨_, hslep, _⟩ =>
      nomatch (congrFun hescr key').symm.trans hslep
  have hpayChans : s.openPayChans holder issue = {key} := by
    refine Set.eq_singleton_iff_unique_mem.mpr ⟨hkey, fun key' ⟨_, hslep, _⟩ => ?_⟩
    by_contra hne
    rw [hpayChan, update_of_ne hne, update_of_ne hne] at hslep
    exact nomatch hslep
  rw [hesc, hpayChans, Set.ncard_empty, Set.ncard_singleton]

/-- The holder adds 5 tokens to the channel. -/
def sampleTopUp : PayChanFund where
  account := sampleHolder
  channel := .ofByte 2
  amount := ⟨5, some sampleIssue⟩

/-- The holder pays all 10 tokens of the channel to its destination. -/
def sampleDrain : PayChanClaim where
  account := sampleHolder
  channel := .ofByte 2
  balance := some ⟨10, some sampleIssue⟩

/-- The holder has 100 tokens, and the destination accepts 50 tokens. -/
def sampleLines : View :=
  { sampleLedger with
    line := fun key =>
      if key = lineKey sampleHolder sampleIssuer sampleCurrency then
        some { balance := 100, low := {}, high := {} }
      else if key = lineKey sampleDestination sampleIssuer sampleCurrency then
        some { balance := 0, low := {}, high := { limit := 50 } }
      else none }

theorem sampleLines_fresh : Fresh sampleHolder sampleIssue sampleLines where
  lock := by decide +kernel
  escrow _ _ hslep := nomatch hslep
  payChan _ _ hslep := nomatch hslep

/-- The ledger after the channel was opened and funded. -/
def sampleToppedUp : View :=
  (Tx.payChanFund sampleTopUp).apply sampleEnv
    ((Tx.payChanCreate sampleCreate).apply sampleEnv sampleLines)

/-- The ledger after the channel was opened and drained. -/
def sampleDrained : View :=
  (Tx.payChanClaim sampleDrain).apply sampleEnv
    ((Tx.payChanCreate sampleCreate).apply sampleEnv sampleLines)

end Xahau.Token
