import Xahau.Token.PayChan

/-! # What the operations on tokens change

Each function of the token model is taken apart once: what it leaves alone, and how the lock of a
line that it touches changes. What is locked, and for which escrows and channels, is the *holds* of
a view. -/

namespace Xahau.Token

open Checked Function RippleState Transfer

variable {a account b dst id src : AccountID} {high noRipple : Bool} {currency : Currency}
  {deltaLockCount : Int} {page : Nat} {line line' : RippleState} {amount : STAmount} {t : Transfer}
  {key : UInt256} {n : UInt32} {deltaAmt : ℚ}

/-! ## Keys of lines -/

theorem data_lt_or_gt (h : a ≠ b) : a.data < b.data ∨ b.data < a.data := by
  by_contra hnei
  obtain ⟨hab, hba⟩ := not_or.mp hnei
  exact h (BaseUInt.ext (List.le_antisymm hba hab))

theorem lineKey_comm (a b : AccountID) (currency : Currency) :
    lineKey a b currency = lineKey b a currency := by
  unfold lineKey
  by_cases hab : a = b
  · rw [hab]
  rcases data_lt_or_gt hab with h | h
  · rw [if_pos h, if_neg (List.lt_asymm h)]
  · rw [if_neg (List.lt_asymm h), if_pos h]

theorem lineKey_eq_lineKey {a' b' : AccountID} {currency' : Currency}
    (h : lineKey a b currency = lineKey a' b' currency') :
    currency = currency' ∧ (a = a' ∧ b = b' ∨ a = b' ∧ b = a') := by
  unfold lineKey at h
  split at h <;> split at h <;> (obtain ⟨h1, h2, h3⟩ := LineKey.mk.inj h) <;>
    simp [h1, h2, h3]

theorem lineKey_low_eq {holder issuer : AccountID} (hne : issuer ≠ holder) (currency : Currency) :
    (lineKey holder issuer currency).low = issuer ↔ issuer.data < holder.data := by
  unfold lineKey
  rcases data_lt_or_gt hne with h | h
  · simp [h, (List.lt_asymm h)]
  · simp [h, (List.lt_asymm h), hne.symm]

theorem lineKey_high_eq_iff (hne : a ≠ b) (currency : Currency) :
    (lineKey a b currency).high = b ↔ (lineKey a b currency).low = a := by
  unfold lineKey
  split
  · exact iff_of_true rfl rfl
  · exact iff_of_false hne hne.symm

/-! ## Locks of lines -/

/-- The locked balance and the lock count of a line, when present. -/
abbrev LockFields := Option ℚ × Option UInt32

def RippleState.lock (line : RippleState) : LockFields := (line.lockedBalance, line.lockCount)

/-- The lock of a line; a line that does not exist has none. -/
def View.lock (view : View) (key : LineKey) : LockFields :=
  ((view.line key).map RippleState.lock).getD (none, none)

namespace LockFields

section

variable (lock : LockFields) (high : Bool)

/-- The locked balance, in the terms of the high or the low account. -/
def balance : ℚ := inTerms high (lock.1.getD 0)

/-- How many locks are counted; zero if absent. -/
def count : UInt32 := lock.2.getD 0

/-- The fields for a balance and a count; they are absent if one of them is zero. -/
def store (balance : ℚ) (count : UInt32) : LockFields :=
  if balance = 0 ∨ count = 0 then (none, none) else (some (inTerms high balance), some count)

@[simp] theorem inTerms_inTerms (x : ℚ) : inTerms high (inTerms high x) = x := by
  cases high <;> simp [inTerms]

@[simp] theorem inTerms_zero : inTerms high 0 = 0 := by
  cases high <;> simp [inTerms]

theorem inTerms_not (x : ℚ) : inTerms (!high) x = -inTerms high x := by
  cases high <;> simp [inTerms]

theorem store_of_ne {b : ℚ} (h : ¬ (b = 0 ∨ n = 0)) :
    (store high b n).balance high = b ∧ (store high b n).count = n := by
  unfold store
  rw [if_neg h]
  exact ⟨inTerms_inTerms high b, rfl⟩

theorem store_of_zero {b : ℚ} (h : b = 0 ∨ n = 0) :
    (store high b n).balance high = 0 ∧ (store high b n).count = 0 := by
  unfold store
  rw [if_pos h]
  exact ⟨inTerms_zero high, rfl⟩

end

end LockFields

open LockFields

section

variable (line : RippleState) (high : Bool) (b : ℚ) (n : UInt32)

theorem RippleState.lock_setLocked : (line.setLocked high b n).lock = store high b n := by
  unfold setLocked store
  split <;> rfl

theorem RippleState.balance_setLocked : (line.setLocked high b n).balance = line.balance := by
  unfold setLocked
  split <;> rfl

theorem RippleState.balance_setSide (side : Side) :
    (line.setSide high side).balance = line.balance := by
  cases high <;> rfl

theorem RippleState.lock_setSide (side : Side) : (line.setSide high side).lock = line.lock := by
  cases high <;> rfl

end

/-! ## Lock counters -/

theorem count_incremented (h : ¬ countOverflows 1 n (n + .ofInt 1) = true) :
    (n + .ofInt 1).toNat = n.toNat + 1 := by
  have hlt : ¬ n + .ofInt 1 < n := by
    intro hlt
    refine h (decide_eq_true (.inl ⟨by decide, hlt⟩))
  rw [UInt32.lt_iff_toNat_lt] at hlt
  have hadd : (n + .ofInt 1).toNat = (n.toNat + 1) % 2 ^ 32 := UInt32.toNat_add n (.ofInt 1)
  have hn := n.toNat_lt
  omega

theorem count_decremented (h : ¬ countOverflows (-1) n (n + .ofInt (-1)) = true) :
    (n + .ofInt (-1)).toNat = n.toNat - 1 ∧ 0 < n.toNat := by
  have hlt : ¬ n < n + .ofInt (-1) := by
    intro hlt
    refine h (decide_eq_true (.inr (.inl ⟨by decide, hlt⟩)))
  rw [UInt32.lt_iff_toNat_lt] at hlt
  have hadd : (n + .ofInt (-1)).toNat = (n.toNat + 4294967295) % 2 ^ 32 :=
    UInt32.toNat_add n (.ofInt (-1))
  have hn := n.toNat_lt
  omega

/-! ## Changes of a lock -/

variable {env : Env}

/-- **What locking does to a line**: nothing for zero; else balance and count change, and the
balance is not negative. -/
theorem adjustLocked_eq_ok (h : adjustLocked env line high deltaAmt deltaLockCount = .ok line') :
    deltaAmt = 0 ∧ line' = line ∨ deltaAmt ≠ 0 ∧
      ¬ countOverflows deltaLockCount line.lock.count
        (line.lock.count + .ofInt deltaLockCount) = true ∧
      line'.lock = store high (line.lock.balance high + deltaAmt)
        (line.lock.count + .ofInt deltaLockCount) := by
  replace h := of_check h
  split at h
  next hzero =>
    exact .inl ⟨hzero, (Except.ok.inj h).symm⟩
  rename_i hzero
  replace h := of_check (of_check (of_check (of_check h)))
  obtain ⟨hcount, h⟩ := of_failIf h
  refine .inr ⟨hzero, hcount, ?_⟩
  cases h
  exact line.lock_setLocked high _ _

section

variable {amount : ℚ} (h : debitLocked env line high amount deltaLockCount = .ok line')

include h

/-- **What taking locked tokens does to the lock of a line**. -/
theorem debitLocked_eq_ok :
    amount ≤ line.lock.balance high ∧
      ¬ countOverflows deltaLockCount line.lock.count
        (line.lock.count + .ofInt deltaLockCount) = true ∧
      line'.lock = store high (line.lock.balance high - amount)
        (line.lock.count + .ofInt deltaLockCount) := by
  unfold debitLocked at h
  split at h
  next lockedBalance priorLockCount hbal hcount =>
    have hlock : line.lock = (some lockedBalance, some priorLockCount) := by
      unfold lock
      rw [hbal, hcount]
    rw [hlock]
    obtain ⟨hfun, h⟩ := of_failIf h
    replace h := of_check h
    obtain ⟨hover, h⟩ := of_failIf h
    replace h := of_check h
    refine ⟨not_lt.mp hfun, hover, ?_⟩
    cases h
    exact lock_setLocked _ high _ _
  next => exact nomatch h

/-- **What taking locked tokens does to the balance of a line**. -/
theorem debitLocked_balance : inTerms high line'.balance = inTerms high line.balance - amount := by
  unfold debitLocked at h
  split at h
  next lockedBalance priorLockCount _ _ =>
    replace h := of_check (of_check (of_check (of_check h)))
    cases h
    rw [balance_setLocked, inTerms_inTerms]
  next => exact nomatch h

end

theorem credit_eq_ok {acting : Bool} {dstAmt : ℚ}
    (h : credit env line high acting dstAmt = .ok line') : line'.lock = line.lock := by
  replace h := of_check (of_check (of_check h))
  cases h
  rfl

/-! ## Holds -/

/-- What is locked on which line, and for which escrows and channels. -/
structure Holds where
  escrow : UInt256 → Option Escrow
  payChan : UInt256 → Option PayChan
  lock : LineKey → LockFields

def View.holds (view : View) : Holds := ⟨view.escrow, view.payChan, view.lock⟩

namespace Holds

/-- The holds with the lock of a line changed. -/
def setLock (s : Holds) (key : LineKey) (lock : LockFields) : Holds :=
  { s with lock := Function.update s.lock key lock }

/-- The holds with an escrow, or without it. -/
def setEscrow (s : Holds) (key : UInt256) (escrow : Option Escrow) : Holds :=
  { s with escrow := Function.update s.escrow key escrow }

/-- The holds with a channel, or without it. -/
def setPayChan (s : Holds) (key : UInt256) (payChan : Option PayChan) : Holds :=
  { s with payChan := Function.update s.payChan key payChan }

end Holds

namespace View

variable {view view' : View}

theorem lock_of_line {key : LineKey} (h : view.line key = some line) :
    view.lock key = line.lock := by
  unfold lock
  rw [h]
  rfl

@[simp] theorem holds_setLine (view : View) (key : LineKey) (line : RippleState) :
    (view.setLine key line).holds = view.holds.setLock key line.lock := by
  have hlock : (view.setLine key line).lock = update view.lock key line.lock := by
    funext key'
    by_cases hkey : key' = key <;> simp [lock, setLine, hkey]
  unfold holds Holds.setLock
  rw [hlock]
  rfl

theorem holds_setLine_of_eq {key : LineKey} (h : line.lock = view.lock key) :
    (view.setLine key line).holds = view.holds := by
  rw [holds_setLine, h, Holds.setLock]
  exact congrArg (Holds.mk _ _) (update_eq_self key _)

@[simp] theorem holds_setEscrow (view : View) (key : UInt256) (escrow : Option Escrow) :
    (view.setEscrow key escrow).holds = view.holds.setEscrow key escrow := rfl

@[simp] theorem holds_setPayChan (view : View) (key : UInt256) (payChan : Option PayChan) :
    (view.setPayChan key payChan).holds = view.holds.setPayChan key payChan := rfl

section

variable (view : View) (id : AccountID) (amount : Int)

@[simp] theorem holds_setAccount (root : AccountRoot) :
    (view.setAccount id root).holds = view.holds := rfl

@[simp] theorem holds_adjustOwnerCount : (adjustOwnerCount view id amount).holds = view.holds := by
  unfold adjustOwnerCount
  split <;> rfl

@[simp] theorem line_adjustOwnerCount : (adjustOwnerCount view id amount).line = view.line := by
  unfold adjustOwnerCount
  split <;> rfl

@[simp] theorem rules_adjustOwnerCount : (adjustOwnerCount view id amount).rules = view.rules := by
  unfold adjustOwnerCount
  split <;> rfl

end

theorem getAccount_eq_ok {result : Ter} {sle : AccountRoot}
    (h : view.getAccount id result = .ok sle) : view.account id = some sle := by
  unfold View.getAccount at h
  split at h
  next root hroot =>
    cases h
    exact hroot
  next => exact nomatch h

theorem dirInsert_eq_ok (h : view.dirInsert id key = .ok (page, view')) :
    ∃ dir, view' = view.setOwnerDir id dir := by
  unfold dirInsert at h
  split at h
  · exact nomatch h
  · exact nomatch h
  · exact ⟨_, (congrArg Prod.snd (Except.ok.inj h)).symm⟩

theorem dirInsert_holds
    (h : view.dirInsert id key = .ok (page, view')) : view'.holds = view.holds := by
  obtain ⟨dir, rfl⟩ := dirInsert_eq_ok h
  rfl

theorem dirInsertIf_holds {wanted : Bool} {page : Option Nat}
    (h : view.dirInsertIf wanted id key = .ok (page, view')) : view'.holds = view.holds := by
  unfold dirInsertIf at h
  split at h
  · obtain ⟨⟨page', view₁⟩, hins, h⟩ := bind_eq_ok.mp h
    cases h
    exact dirInsert_holds hins
  · cases h
    rfl

theorem dirRemove_eq_ok {keepRoot : Bool} (h : view.dirRemove id page key keepRoot = .ok view') :
    ∃ dir, view' = view.setOwnerDir id dir := by
  unfold dirRemove at h
  split at h
  · exact nomatch h
  · exact nomatch h
  · exact ⟨_, (Except.ok.inj h).symm⟩

end View

/-! ## Functions of the token model -/

section Functions

variable {env : Env} {view view' : View}

section

variable {balance : ℚ} (h : trustCreate env view src dst currency noRipple balance = .ok view')

include h

/-- **A line is created** with the balance and no lock; else only directories and the owner's
counter change. -/
theorem trustCreate_eq_ok :
    ∃ dirs line,
      view' = adjustOwnerCount
        (View.setLine { view with ownerDir := dirs } (lineKey src dst currency) line) dst 1 ∧
      line.balance = inTerms (decide ((lineKey src dst currency).high = dst)) balance ∧
      line.lock = (none, none) := by
  obtain ⟨⟨_, view₁⟩, hlow, h⟩ := bind_eq_ok.mp h
  obtain ⟨⟨_, view₂⟩, hhigh, h⟩ := bind_eq_ok.mp h
  obtain ⟨_, -, h⟩ := bind_eq_ok.mp h
  have hdirs : ∃ dirs, view₂ = { view with ownerDir := dirs } := by
    obtain ⟨dir₁, rfl⟩ := View.dirInsert_eq_ok hlow
    obtain ⟨dir₂, rfl⟩ := View.dirInsert_eq_ok hhigh
    exact ⟨_, rfl⟩
  obtain ⟨dirs, hview₂⟩ := hdirs
  have hview' := (Except.ok.inj h).symm
  rw [hview₂] at hview'
  exact ⟨dirs, _, hview', rfl, rfl⟩

theorem trustCreate_line :
    ∃ line, view'.line = update view.line (lineKey src dst currency) (some line) ∧
      line.balance = inTerms (decide ((lineKey src dst currency).high = dst)) balance ∧
      line.lock = (none, none) := by
  obtain ⟨dirs, line, rfl, hbal, hlock⟩ := trustCreate_eq_ok h
  refine ⟨line, ?_, hbal, hlock⟩
  rw [View.line_adjustOwnerCount]
  rfl

end

/-- **A line is deleted**; otherwise only directories change. -/
theorem trustDelete_eq_ok {key : LineKey} (h : trustDelete env view key line = .ok view') :
    ∃ dirs, view' = { view with ownerDir := dirs, line := update view.line key none } := by
  obtain ⟨view₁, hlow, h⟩ := bind_eq_ok.mp h
  obtain ⟨view₂, hhigh, h⟩ := bind_eq_ok.mp h
  have hdirs : ∃ dirs, view₂ = { view with ownerDir := dirs } := by
    obtain ⟨dir₁, rfl⟩ := View.dirRemove_eq_ok hlow
    obtain ⟨dir₂, rfl⟩ := View.dirRemove_eq_ok hhigh
    exact ⟨_, rfl⟩
  obtain ⟨dirs, hview₂⟩ := hdirs
  have hview' := (Except.ok.inj h).symm
  rw [hview₂] at hview'
  exact ⟨dirs, hview'⟩

theorem trustCreate_holds {balance : ℚ} (hn : view.line (lineKey dst src currency) = none)
    (h : trustCreate env view src dst currency noRipple balance = .ok view') :
    view'.holds = view.holds := by
  obtain ⟨dirs, line, rfl, -, hlock⟩ := trustCreate_eq_ok h
  rw [View.holds_adjustOwnerCount]
  refine View.holds_setLine_of_eq ?_
  rw [hlock, lineKey_comm src dst currency]
  exact (congrArg (fun line => (Option.map lock line).getD (none, none)) hn).symm

variable {sleDstAcc : AccountRoot} {issue : Issue}

theorem trustAdjustLockedBalance_eq_ok {key : LineKey}
    (h : trustAdjustLockedBalance env view key issue deltaAmt deltaLockCount = .ok line') :
    ∃ line, view.line key = some line ∧
      adjustLocked env line (decide (key.low = issue.account)) deltaAmt deltaLockCount = .ok line' := by
  replace h := of_check h
  split at h
  · exact nomatch h
  next line hline =>
    replace h := of_check h
    exact ⟨line, hline, h⟩

/-- **How a line's lock changes** when an amount is locked or unlocked. -/
def Adjusted (env : Env) (view : View) (account : AccountID) (issue : Issue) (deltaAmt : ℚ)
    (deltaLockCount : Int) (s' : Holds) : Prop :=
  ∃ line line', view.line (lineKey account issue.account issue.currency) = some line ∧
    adjustLocked env line
      (decide ((lineKey account issue.account issue.currency).low = issue.account))
      deltaAmt deltaLockCount = .ok line' ∧
    s' = view.holds.setLock (lineKey account issue.account issue.currency) line'.lock

theorem Adjusted.objects
    {s' : Holds} (h : Adjusted env view account issue deltaAmt deltaLockCount s') :
    s'.escrow = view.escrow ∧ s'.payChan = view.payChan := by
  obtain ⟨line, line', -, -, rfl⟩ := h
  exact ⟨rfl, rfl⟩

theorem Adjusted.of_setLine
    (h : (trustAdjustLockedBalance env view (lineKey account issue.account issue.currency) issue
      deltaAmt deltaLockCount >>= fun line =>
        .ok (view.setLine (lineKey account issue.account issue.currency) line)) = .ok view') :
    Adjusted env view account issue deltaAmt deltaLockCount view'.holds := by
  obtain ⟨line', hadj, h⟩ := bind_eq_ok.mp h
  obtain ⟨line, hline, hline'⟩ := trustAdjustLockedBalance_eq_ok hadj
  refine ⟨line, line', hline, hline', ?_⟩
  cases h
  rw [View.holds_setLine]

theorem lockFunds_eq_ok (h : lockFunds env view account amount = .ok view') :
    ((∀ issue, amount.issue = some issue → issue.account = account) ∧ view'.holds = view.holds) ∨
      ∃ issue, amount.issue = some issue ∧
        Adjusted env view account issue amount.value 1 view'.holds := by
  unfold lockFunds at h
  split at h
  next hn =>
    obtain ⟨sle, -, h⟩ := bind_eq_ok.mp h
    refine .inl ⟨fun issue hissue => absurd (hn.symm.trans hissue) nofun, ?_⟩
    cases h
    rw [View.holds_setAccount]
  next issue hissue =>
    replace h := of_check h
    split at h
    next hissr =>
      refine .inl ⟨fun issue' hissue' => ?_, by rw [Except.ok.inj h]⟩
      rw [← Option.some.inj (hissue.symm.trans hissue')]
      exact hissr
    exact .inr ⟨issue, hissue, .of_setLine h⟩

theorem lockFunds_objects (h : lockFunds env view account amount = .ok view') :
    view'.escrow = view.escrow ∧ view'.payChan = view.payChan := by
  rcases lockFunds_eq_ok h with ⟨-, hh⟩ | ⟨issue, -, hadj⟩
  · exact ⟨congrArg Holds.escrow hh, congrArg Holds.payChan hh⟩
  · exact hadj.objects

theorem EscrowCancel.unlock_eq_ok {slep : Escrow}
    (h : EscrowCancel.unlock env view slep = .ok view') :
    ((∀ issue, slep.amount.issue = some issue → issue.account = slep.account) ∧
        view'.holds = view.holds) ∨
      ∃ issue, slep.amount.issue = some issue ∧
        Adjusted env view slep.account issue (-slep.amount.value) (-1) view'.holds := by
  unfold EscrowCancel.unlock at h
  split at h
  next hn =>
    obtain ⟨sle, -, h⟩ := bind_eq_ok.mp h
    refine .inl ⟨fun issue hissue => absurd (hn.symm.trans hissue) nofun, ?_⟩
    cases h
    rw [View.holds_setAccount]
  next issue hissue =>
    replace h := of_check h
    split at h
    next hissr =>
      refine .inl ⟨fun issue' hissue' => ?_, by rw [Except.ok.inj h]⟩
      rw [← Option.some.inj (hissue.symm.trans hissue')]
      exact hissr
    exact .inr ⟨issue, hissue, .of_setLine h⟩

theorem unlockRemaining_eq_ok (h : unlockRemaining env view src amount = .ok view') :
    (amount.issue = none ∧ view'.holds = view.holds) ∨
      ∃ issue, amount.issue = some issue ∧
        Adjusted env view src issue (-amount.value) (-1) view'.holds := by
  unfold unlockRemaining at h
  split at h
  next hn =>
    obtain ⟨sle, -, h⟩ := bind_eq_ok.mp h
    refine .inl ⟨hn, ?_⟩
    cases h
    rw [View.holds_setAccount]
  next issue hissue => exact .inr ⟨issue, hissue, .of_setLine h⟩

/-- The holds after tokens were taken from the source, if it is no issuer. -/
def Transfer.Debited (env : Env) (t : Transfer) (view : View) (s' : Holds) : Prop :=
  t.src = t.issue.account ∧ s' = view.holds ∨
    t.src ≠ t.issue.account ∧ ∃ line line', view.line t.srcKey = some line ∧
      debitLocked env line t.srcHigh t.amount t.deltaLockCount = .ok line' ∧
      s' = view.holds.setLock t.srcKey line'.lock

theorem Transfer.debit_wet (h : t.debit env false view = .ok view') :
    (t.src = t.issue.account ∧ view' = view) ∨
      (t.src ≠ t.issue.account ∧ ∃ line line', view.line t.srcKey = some line ∧
        debitLocked env line t.srcHigh t.amount t.deltaLockCount = .ok line' ∧
        view' = view.setLine t.srcKey line') := by
  unfold debit at h
  split at h
  next hsrc =>
    exact .inl ⟨hsrc, (Except.ok.inj h).symm⟩
  rename_i hsrc
  split at h
  · exact nomatch h
  next line hline =>
    obtain ⟨line', hdeb, h⟩ := bind_eq_ok.mp h
    exact .inr ⟨hsrc, line, line', hline, hdeb, (Except.ok.inj h).symm⟩

theorem Transfer.debit_eq_ok (h : t.debit env false view = .ok view') :
    t.Debited env view view'.holds := by
  rcases debit_wet h with ⟨hsrc, rfl⟩ | ⟨hsrc, line, line', hline, hdeb, rfl⟩
  · exact .inl ⟨hsrc, rfl⟩
  · exact .inr ⟨hsrc, line, line', hline, hdeb, View.holds_setLine _ _ _⟩

theorem Transfer.creditDst_cases (h : t.creditDst env false sleDstAcc view = .ok view') :
    (t.dst = t.issue.account ∧ view' = view) ∨ (t.dst ≠ t.issue.account ∧
      ((view.line t.dstKey = none ∧ trustCreate env view t.issue.account t.dst t.issue.currency
          (!sleDstAcc.defaultRipple) t.dstAmt = .ok view') ∨
        ∃ line line', view.line t.dstKey = some line ∧
          credit env line t.dstHigh (t.actingAcc = t.dst) t.dstAmt = .ok line' ∧
          view' = view.setLine t.dstKey line')) := by
  unfold creditDst at h
  split at h
  next hdst =>
    exact .inl ⟨hdst, (Except.ok.inj h).symm⟩
  rename_i hdst
  refine .inr ⟨hdst, ?_⟩
  split at h
  next hn => exact .inl ⟨hn, of_check (of_check h)⟩
  next line hline =>
    obtain ⟨line', hcre, h⟩ := bind_eq_ok.mp h
    exact .inr ⟨line, line', hline, hcre, (Except.ok.inj h).symm⟩

theorem Transfer.creditDst_holds
    (h : t.creditDst env false sleDstAcc view = .ok view') : view'.holds = view.holds := by
  obtain ⟨-, rfl⟩ | ⟨-, ⟨hn, hcre⟩ | ⟨line, line', hline, hcre, rfl⟩⟩ := creditDst_cases h
  · rfl
  · exact trustCreate_holds hn hcre
  · refine View.holds_setLine_of_eq ?_
    rw [View.lock_of_line hline]
    exact credit_eq_ok hcre

theorem Transfer.releaseReserve_holds (t : Transfer) : (t.releaseReserve view).holds = view.holds := by
  unfold releaseReserve
  split
  · rfl
  split
  · rfl
  next line hline =>
    dsimp only
    split
    · rw [View.holds_adjustOwnerCount]
      refine View.holds_setLine_of_eq ?_
      rw [View.lock_of_line hline, lock_setSide]
    · rfl

theorem Transfer.creditDst_rules
    (h : t.creditDst env false sleDstAcc view = .ok view') : view'.rules = view.rules := by
  obtain ⟨-, rfl⟩ | ⟨-, ⟨-, h⟩ | ⟨line, line', -, -, rfl⟩⟩ := creditDst_cases h
  · rfl
  · obtain ⟨dirs, line, rfl, -⟩ := trustCreate_eq_ok h
    rw [View.rules_adjustOwnerCount]
    rfl
  · rfl

theorem Transfer.releaseReserve_rules (t : Transfer) : (t.releaseReserve view).rules = view.rules := by
  unfold releaseReserve
  split
  · rfl
  split
  · rfl
  dsimp only
  split
  · rw [View.rules_adjustOwnerCount]
    rfl
  · rfl

section

variable (h : trustTransferLockedBalance env t false view = .ok view')

include h

theorem trustTransferLockedBalance_cases : 0 < t.amount ∧ ∃ sleDstAcc view₁ view₂,
    t.debit env false view = .ok view₁ ∧ t.creditDst env false sleDstAcc view₁ = .ok view₂ ∧
      view' = t.releaseReserve view₂ := by
  replace h := of_check (of_check h)
  obtain ⟨sleDstAcc, -, h⟩ := bind_eq_ok.mp h
  obtain ⟨hpos, h⟩ := of_failIf h
  replace h := of_check h
  obtain ⟨view₁, hdeb, h⟩ := bind_eq_ok.mp h
  obtain ⟨view₂, hcre, h⟩ := bind_eq_ok.mp h
  exact ⟨not_le.mp hpos, sleDstAcc, view₁, view₂, hdeb, hcre,
    (Except.ok.inj h).symm⟩

/-- **What a transfer of locked tokens does**: a positive amount is taken from the source's lock. -/
theorem trustTransferLockedBalance_eq_ok : 0 < t.amount ∧ t.Debited env view view'.holds := by
  obtain ⟨hpos, sleDstAcc, view₁, view₂, hdeb, hcre, rfl⟩ := trustTransferLockedBalance_cases h
  rw [t.releaseReserve_holds, creditDst_holds hcre]
  exact ⟨hpos, debit_eq_ok hdeb⟩

theorem trustTransferLockedBalance_rules : view'.rules = view.rules := by
  obtain ⟨-, sleDstAcc, view₁, view₂, hdeb, hcre, rfl⟩ := trustTransferLockedBalance_cases h
  rw [t.releaseReserve_rules, creditDst_rules hcre]
  rcases debit_wet hdeb with ⟨-, rfl⟩ | ⟨-, line, line', -, -, rfl⟩ <;> rfl

theorem trustTransferLockedBalance_objects :
    view'.escrow = view.escrow ∧ view'.payChan = view.payChan := by
  rcases (trustTransferLockedBalance_eq_ok h).2 with ⟨-, hh⟩ | ⟨-, line, line', -, -, hh⟩
  · exact ⟨congrArg Holds.escrow hh, congrArg Holds.payChan hh⟩
  · exact ⟨congrArg Holds.escrow hh, congrArg Holds.payChan hh⟩

end

theorem removeFromDirs_holds {destination : AccountID} {ownerNode : Nat}
    {destinationNode : Option Nat}
    (h : removeFromDirs view account destination ownerNode destinationNode key = .ok view') :
    view'.holds = view.holds := by
  obtain ⟨view₁, hrem, h⟩ := bind_eq_ok.mp h
  obtain ⟨dir, rfl⟩ := View.dirRemove_eq_ok hrem
  split at h
  · cases h
    rfl
  · obtain ⟨dir', rfl⟩ := View.dirRemove_eq_ok h
    rfl

end Functions

end Xahau.Token
