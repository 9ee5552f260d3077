import Xahau.Data.Earmarks
import Xahau.Token.Transactions

/-! # Locks as earmarks

Tokens of a holder that are in escrows and channels are locked, and the line stores their sum and a
counter. A transaction that names the token of its channel acts on the escrows and channels of the
holder as on purposes for which a part of the pool is held. -/

namespace Xahau.Token

open Checked Earmarks Function LockFields View

variable {issue' : Issue} {slep slep' : PayChan} {t : Transfer} {key : UInt256}

/-! ## What is held -/

section

variable (holder : AccountID) (issue : Issue) (account : AccountID) (amount : STAmount)

/-- The part of an amount of an account that is in the token of the holder. -/
def share : ℚ :=
  if account = holder ∧ amount.issue = some issue then amount.value else 0

/-- What an escrow holds of the tokens of the holder. -/
def escrowHeld : Option Escrow → ℚ
  | none => 0
  | some slep => share holder issue slep.account slep.amount

/-- What a channel holds of the holder's tokens: its amount less what it has paid. -/
def payChanHeld : Option PayChan → ℚ
  | none => 0
  | some slep =>
    share holder issue slep.account
      ⟨slep.amount.value - slep.balance.value, slep.amount.issue⟩

/-- The number of an amount that is the holder's in the token. -/
def mark : Option ℚ :=
  if account = holder ∧ amount.issue = some issue then some amount.value else none

/-- The amount of an escrow of the holder in the token. -/
def escrowMark : Option Escrow → Option ℚ
  | none => none
  | some slep => mark holder issue slep.account slep.amount

/-- What is left of a channel of the holder in the token. -/
def payChanMark : Option PayChan → Option ℚ
  | none => none
  | some slep =>
    mark holder issue slep.account
      ⟨slep.amount.value - slep.balance.value, slep.amount.issue⟩

end

namespace Holds

variable (holder : AccountID) (issue : Issue)

section

variable (s : Holds)

/-- What each escrow and each channel holds of the tokens of the holder. -/
def held : UInt256 ⊕ UInt256 → ℚ
  | .inl key => escrowHeld holder issue (s.escrow key)
  | .inr key => payChanHeld holder issue (s.payChan key)

/-- The line on which the holder has the tokens. -/
def holderLine : LineKey := lineKey holder issue.account issue.currency

/-- The holder is the high account of the line. -/
def holderHigh : Bool := decide ((holderLine holder issue).low = issue.account)

/-- `sfLockedBalance` of the line in the terms of the holder; zero if absent. -/
def locked : ℚ := (s.lock (holderLine holder issue)).balance (holderHigh holder issue)

/-- `sfLockCount` of the line; zero if absent. -/
def lockCount : Nat := (s.lock (holderLine holder issue)).count.toNat

/-- What is left of each open escrow and channel of the holder in the token. -/
def marked : UInt256 ⊕ UInt256 → Option ℚ
  | .inl key => escrowMark holder issue (s.escrow key)
  | .inr key => payChanMark holder issue (s.payChan key)

/-- What is stored on the line, with what is held. -/
def record (held : UInt256 ⊕ UInt256 → Option ℚ) : Marks (UInt256 ⊕ UInt256) ℚ :=
  ⟨held, s.locked holder issue, s.lockCount holder issue⟩

/-- **The escrows and channels as purposes** for which tokens on the line are held. -/
def marks : Marks (UInt256 ⊕ UInt256) ℚ := s.record holder issue (s.marked holder issue)

end

variable {holder issue} {s s' : Holds}

theorem held_eq_amount : s.held holder issue = (s.marks holder issue).amount := by
  funext object
  have hsha : ∀ account amount,
      share holder issue account amount = (mark holder issue account amount).getD 0 := by
    intro account amount
    unfold share mark
    split <;> rfl
  rcases object with key | key
  · show escrowHeld holder issue (s.escrow key) = (escrowMark holder issue (s.escrow key)).getD 0
    cases s.escrow key with
    | none => rfl
    | some slep => exact hsha _ _
  · show payChanHeld holder issue (s.payChan key) = (payChanMark holder issue (s.payChan key)).getD 0
    cases s.payChan key with
    | none => rfl
    | some slep => exact hsha _ _

theorem marked_of_escrow {escrow : Option Escrow}
    (hesc : s'.escrow = update s.escrow key escrow) (hpayChan : s'.payChan = s.payChan) :
    s'.marked holder issue =
      update (s.marked holder issue) (.inl key) (escrowMark holder issue escrow) := by
  funext object
  rcases object with key' | key'
  · by_cases hkey : key' = key
    · simp [marked, hesc, hkey]
    · simp [marked, hesc, hkey]
  · simp [marked, hpayChan]

theorem marked_of_payChan {payChan : Option PayChan}
    (hesc : s'.escrow = s.escrow) (hpayChan : s'.payChan = update s.payChan key payChan) :
    s'.marked holder issue =
      update (s.marked holder issue) (.inr key) (payChanMark holder issue payChan) := by
  funext object
  rcases object with key' | key'
  · simp [marked, hesc]
  by_cases hkey : key' = key <;> simp [marked, hpayChan, hkey]

theorem record_setLock_of_ne {key : LineKey} (hkey : holderLine holder issue ≠ key)
    (lock : LockFields) (held : UInt256 ⊕ UInt256 → Option ℚ) :
    (s.setLock key lock).record holder issue held = s.record holder issue held := by
  unfold record locked lockCount setLock
  dsimp only
  rw [update_of_ne hkey]

theorem record_setLock_store (b : ℚ) (n : UInt32) (held : UInt256 ⊕ UInt256 → Option ℚ) :
    (s.setLock (holderLine holder issue) (store (holderHigh holder issue) b n)).record holder issue
      held = Marks.store held b n.toNat := by
  unfold record locked lockCount setLock Marks.store
  dsimp only
  rw [update_self]
  have hzero_iff : n = 0 ↔ n.toNat = 0 := UInt32.toNat_inj.symm
  by_cases hzero : b = 0 ∨ n = 0
  · obtain ⟨hbal, hcount⟩ := store_of_zero (holderHigh holder issue) hzero
    rw [hbal, hcount, if_pos (hzero.imp_right hzero_iff.mp)]
    rfl
  · obtain ⟨hbal, hcount⟩ := store_of_ne (holderHigh holder issue) hzero
    rw [hbal, hcount, if_neg fun h => hzero (h.imp_right hzero_iff.mpr)]

end Holds

open Holds

/-! ## Changes of the lock -/

variable {env : Env} {view view' : View} {holder : AccountID} {issue : Issue}

/-- The account is the issuer, and the amount is in tokens that the holder has issued, on the same
line. -/
def Reverse (holder : AccountID) (issue : Issue) (account : AccountID) (amount : STAmount) : Prop :=
  account = issue.account ∧ amount.issue = some ⟨issue.currency, holder⟩

section

variable {account : AccountID} {amount : STAmount}

/-- Tokens on the holder's line are the holder's, or the issuer's in tokens of the holder. -/
theorem ours_of_lineKey
    (h : holderLine holder issue = lineKey account issue'.account issue'.currency) :
    (account = holder ∧ issue' = issue) ∨
      (account = issue.account ∧ issue' = ⟨issue.currency, holder⟩) := by
  obtain ⟨hcur, ⟨hhol, hissr⟩ | ⟨hhol, hissr⟩⟩ := lineKey_eq_lineKey h
  · exact .inl ⟨hhol.symm, Issue.ext hcur.symm hissr.symm⟩
  · exact .inr ⟨hissr.symm, Issue.ext hcur.symm hhol.symm⟩

theorem mark_of_not (h : ¬ (account = holder ∧ amount.issue = some issue)) :
    mark holder issue account amount = none :=
  if_neg h

theorem mark_self (h : account = holder ∧ amount.issue = some issue) :
    mark holder issue account amount = some amount.value :=
  if_pos h

end

variable {account : AccountID} {amount : STAmount}

/-- **Locking tokens** of the holder raises the pool and counts one more. -/
theorem lockFunds_record (hlock : lockFunds env view account amount = .ok view')
    (hne : issue.account ≠ holder) (hpos : 0 < amount.value)
    (hrev : ¬ Reverse holder issue account amount) :
    ((account = holder ∧ amount.issue = some issue) ∧ ∀ held, view'.holds.record holder issue held =
      .store held (view.holds.locked holder issue + amount.value)
        (view.holds.lockCount holder issue + 1)) ∨
    (¬ (account = holder ∧ amount.issue = some issue) ∧
      ∀ held, view'.holds.record holder issue held = view.holds.record holder issue held) := by
  by_cases hours : account = holder ∧ amount.issue = some issue
  · refine .inl ⟨hours, fun held => ?_⟩
    obtain ⟨rfl, hissue⟩ := hours
    rcases lockFunds_eq_ok hlock with ⟨hissr, -⟩ | ⟨issue', hissue', hadj⟩
    · exact absurd (hissr issue hissue) hne
    obtain rfl : issue = issue' := Option.some.inj (hissue.symm.trans hissue')
    obtain ⟨line, line', hline, hadj, hh⟩ := hadj
    rcases adjustLocked_eq_ok hadj with ⟨hzero, -⟩ | ⟨-, hcount, hlock'⟩
    · exact absurd hzero hpos.ne'
    rw [hh, hlock', ← lock_of_line hline]
    refine (record_setLock_store _ _ held).trans ?_
    rw [count_incremented (lock_of_line hline ▸ hcount)]
    rfl
  · refine .inr ⟨hours, fun held => ?_⟩
    rcases lockFunds_eq_ok hlock with ⟨-, hh⟩ | ⟨issue', hissue', hadj⟩
    · rw [hh]
    obtain ⟨line, line', -, -, hh⟩ := hadj
    rw [hh]
    refine record_setLock_of_ne (fun hkey => ?_) _ held
    rcases ours_of_lineKey hkey with ⟨hacc, rfl⟩ | ⟨hacc, rfl⟩
    · exact hours ⟨hacc, hissue'⟩
    · exact hrev ⟨hacc, hissue'⟩

/-- **Unlocking tokens** of the holder lowers the pool and counts one less, unless there are none.
-/
theorem Adjusted.record (hissue' : amount.issue = some issue')
    (hadj : Adjusted env view account issue' (-amount.value) (-1) view'.holds)
    (hrev : ¬ Reverse holder issue account amount) :
    ((account = holder ∧ amount.issue = some issue) ∧ amount.value ≠ 0 ∧
      ∀ held, view'.holds.record holder issue held =
        .store held (view.holds.locked holder issue - amount.value)
          (view.holds.lockCount holder issue - 1)) ∨
    (((account = holder ∧ amount.issue = some issue) → amount.value = 0) ∧
      ∀ held, view'.holds.record holder issue held = view.holds.record holder issue held) := by
  obtain ⟨line, line', hline, hadj, hh⟩ := hadj
  by_cases hours : account = holder ∧ amount.issue = some issue
  · rcases adjustLocked_eq_ok hadj with ⟨hzero, rfl⟩ | ⟨hnon, hcount, hlock'⟩
    · -- nothing to unlock: the line stays as it is
      refine .inr ⟨fun _ => neg_eq_zero.mp hzero, fun held => ?_⟩
      have hs : view.holds.setLock (lineKey account issue'.account issue'.currency) line'.lock =
          view.holds := by
        rw [← lock_of_line hline]
        exact congrArg (Holds.mk _ _) (update_eq_self _ _)
      rw [hh, hs]
    · refine .inl ⟨hours, neg_ne_zero.mp hnon, fun held => ?_⟩
      obtain ⟨rfl, hissue⟩ := hours
      obtain rfl : issue = issue' := Option.some.inj (hissue.symm.trans hissue')
      rw [hh, hlock', ← lock_of_line hline]
      refine (record_setLock_store _ _ held).trans ?_
      rw [(count_decremented (lock_of_line hline ▸ hcount)).1, ← sub_eq_add_neg]
      rfl
  · refine .inr ⟨fun h => absurd h hours, fun held => ?_⟩
    rw [hh]
    refine record_setLock_of_ne (fun hkey => ?_) _ held
    rcases ours_of_lineKey hkey with ⟨hacc, rfl⟩ | ⟨hacc, rfl⟩
    · exact hours ⟨hacc, hissue'⟩
    · exact hrev ⟨hacc, hissue'⟩

theorem holderHigh_eq (hne : issue.account ≠ holder) :
    holderHigh holder issue = decide (issue.account.data < holder.data) :=
  decide_eq_decide.mpr (lineKey_low_eq hne issue.currency)

theorem not_holderHigh_eq (hne : issue.account ≠ holder) :
    (!holderHigh holder issue) = decide (holder.data < issue.account.data) := by
  rw [holderHigh_eq hne]
  rcases data_lt_or_gt hne with h | h <;> simp [h, List.lt_asymm h]

variable {s' : Holds} {tx : PayChanClaim}

/-- **What a transfer takes from the holder's lock**: nothing, or the amount; the line stores the
rest. -/
theorem Transfer.Debited.record (hdeb : t.Debited env view s')
    (hne : issue.account ≠ holder) (hpos : 0 < t.amount)
    (hloc : 0 ≤ view.holds.locked holder issue) :
    (¬ (t.src = holder ∧ t.issue = issue) ∧
      ∀ held, s'.record holder issue held = view.holds.record holder issue held) ∨
    ((t.src = holder ∧ t.issue = issue) ∧
      (t.deltaLockCount = 0 → ∀ held, s'.record holder issue held =
        .store held (view.holds.locked holder issue - t.amount) (view.holds.lockCount holder issue)) ∧
      (t.deltaLockCount = -1 → ∀ held, s'.record holder issue held =
        .store held (view.holds.locked holder issue - t.amount)
          (view.holds.lockCount holder issue - 1))) := by
  rcases hdeb with ⟨hsrc, rfl⟩ | ⟨-, line, line', hline, hdeb, rfl⟩
  · refine .inl ⟨fun ⟨hhol, hissue⟩ => hne ?_, fun held => rfl⟩
    rw [← hissue, ← hsrc, hhol]
  obtain ⟨hamo, hcount, hlock'⟩ := debitLocked_eq_ok hdeb
  by_cases hkey : holderLine holder issue = t.srcKey
  · rcases ours_of_lineKey hkey with ⟨hsrc, hissue⟩ | ⟨hsrc, hissue⟩
    · have hhigh : t.srcHigh = holderHigh holder issue := by
        rw [holderHigh_eq hne, Transfer.srcHigh, hsrc, hissue]
      rw [hlock', ← lock_of_line hline, hhigh, ← hkey]
      rw [← lock_of_line hline, ← hkey] at hcount
      refine .inr ⟨⟨hsrc, hissue⟩, fun hdel held => ?_, fun hdel held => ?_⟩
      · refine (record_setLock_store _ _ held).trans ?_
        rw [hdel, show (.ofInt 0 : UInt32) = 0 from rfl, UInt32.add_zero]
        rfl
      · refine (record_setLock_store _ _ held).trans ?_
        rw [hdel] at hcount ⊢
        rw [(count_decremented hcount).1]
        rfl
    · -- the issuer would take what is locked on the other side
      exfalso
      have hhigh : t.srcHigh = !holderHigh holder issue := by
        rw [not_holderHigh_eq hne, Transfer.srcHigh, hsrc, hissue]
      rw [← lock_of_line hline, hhigh, LockFields.balance, inTerms_not, ← hkey] at hamo
      have : t.amount ≤ -view.holds.locked holder issue := hamo
      linarith
  · refine .inl ⟨fun ⟨hsrc, hissue⟩ => hkey ?_, fun held => record_setLock_of_ne hkey _ held⟩
    rw [holderLine, Transfer.srcKey, hsrc, hissue]

/-! ## Acts on the purposes -/

/-- **A history of acts** on the purposes, all regular if `P` holds. -/
def Moves (holder : AccountID) (issue : Issue) (P : Prop) (s : Holds)
    (held : UInt256 ⊕ UInt256 → Option ℚ) (s' : Holds) (held' : UInt256 ⊕ UInt256 → Option ℚ) : Prop :=
  ∃ acts, Run Marks.Step (s.record holder issue held) acts (s'.record holder issue held') ∧
    (P → ∀ act ∈ acts, act.Regular)

namespace Moves

variable {P : Prop} {s s' : Holds} {held held' : UInt256 ⊕ UInt256 → Option ℚ}

theorem idle (h : s'.record holder issue held = s.record holder issue held) :
    Moves holder issue P s held s' held := by
  refine ⟨[], ?_, nofun⟩
  rw [h]
  exact .nil

theorem single (act : Act (UInt256 ⊕ UInt256) ℚ)
    (h : (s.record holder issue held).Step act (s'.record holder issue held'))
    (hreg : P → act.Regular) : Moves holder issue P s held s' held' :=
  ⟨[act], .single h, fun hP _ hact => List.mem_singleton.mp hact ▸ hreg hP⟩

theorem mono {Q : Prop} (h : Moves holder issue P s held s' held') (hPQ : Q → P) :
    Moves holder issue Q s held s' held' := by
  obtain ⟨acts, hrun, hreg⟩ := h
  exact ⟨acts, hrun, fun hQ => hreg (hPQ hQ)⟩

theorem of_lock {t : Holds} (hlock : s.lock = t.lock) (h : Moves holder issue P s held s' held') :
    Moves holder issue P t held s' held' := by
  have hrec : s.record holder issue held = t.record holder issue held := by
    unfold record locked lockCount
    rw [hlock]
  unfold Moves
  rw [← hrec]
  exact h

end Moves

variable {P : Prop} (object : UInt256 ⊕ UInt256) {held : UInt256 ⊕ UInt256 → Option ℚ}

/-- **Removing an object** for which nothing is held, without a change of the line. -/
theorem moves_discard {s : Holds} (hopen : held object = mark holder issue account amount)
    (hzero : account = holder ∧ amount.issue = some issue → amount.value = 0)
    (hrec : ∀ held, s'.record holder issue held = s.record holder issue held) :
    Moves holder issue P s held s' (update held object none) := by
  by_cases hours : account = holder ∧ amount.issue = some issue
  · refine .single (.close object) ?_ fun _ => trivial
    rw [hrec]
    refine .discard object (hopen.trans ?_)
    rw [mark_self hours, hzero hours]
  · rw [mark_of_not hours] at hopen
    rw [← hopen, update_eq_self]
    exact .idle (hrec _)

section

variable (hlock : lockFunds env view account amount = .ok view') (hne : issue.account ≠ holder)
  (hpos : 0 < amount.value) (hrev : ¬ Reverse holder issue account amount)

include hlock hne hpos hrev

/-- **Locking for a new object** opens a purpose. -/
theorem moves_create (hfree : held object = none) :
    Moves holder issue P view.holds held view'.holds
      (update held object (mark holder issue account amount)) := by
  rcases lockFunds_record hlock hne hpos hrev with ⟨hours, hrec⟩ | ⟨hnot, hrec⟩
  · refine .single (.create object amount.value) ?_ fun _ => trivial
    rw [hrec, mark_self hours]
    exact .create object amount.value hfree hpos
  · rw [mark_of_not hnot, ← hfree, update_eq_self]
    exact .idle (hrec _)

/-- **Locking more for an object** of the account raises what is held for it. -/
theorem moves_raise {a : ℚ}
        (hopen : held object = mark holder issue account ⟨a, amount.issue⟩) :
    Moves holder issue (¬ (account = holder ∧ amount.issue = some issue)) view.holds held view'.holds
      (update held object (mark holder issue account ⟨a + amount.value, amount.issue⟩)) := by
  rcases lockFunds_record hlock hne hpos hrev with ⟨hours, hrec⟩ | ⟨hnot, hrec⟩
  · have hself : ∀ value, mark holder issue account ⟨value, amount.issue⟩ = some value :=
      fun value => mark_self hours
    refine .single (.raise object amount.value) ?_ fun hnot => absurd hours hnot
    rw [hrec, hself]
    exact .raise object a amount.value (hopen.trans (hself a)) hpos
  · have hoth : ∀ value, mark holder issue account ⟨value, amount.issue⟩ = none :=
      fun value => mark_of_not hnot
    rw [hoth] at hopen ⊢
    rw [← hopen, update_eq_self]
    exact .idle (hrec _)

end

/-- **Unlocking for an object** closes the purpose. -/
theorem moves_adjusted (hissue' : amount.issue = some issue')
    (hadj : Adjusted env view account issue' (-amount.value) (-1) view'.holds)
    (hrev : ¬ Reverse holder issue account amount)
    (hopen : held object = mark holder issue account amount) :
    Moves holder issue P view.holds held view'.holds (update held object none) := by
  rcases hadj.record hissue' hrev with ⟨hours, hne, hrec⟩ | ⟨hzero, hrec⟩
  · refine .single (.close object) ?_ fun _ => trivial
    rw [hrec]
    exact .close object amount.value (hopen.trans (mark_self hours)) hne
  · exact moves_discard object hopen hzero hrec

section

variable (htra : trustTransferLockedBalance env t false view = .ok view')
  (hne : issue.account ≠ holder) (hloc : 0 ≤ view.holds.locked holder issue)

include htra hne hloc

/-- **Paying all that is held for an object** closes the purpose. -/
theorem moves_transfer_release (hcount : t.deltaLockCount = -1)
    (hopen : held object = mark holder issue t.src ⟨t.amount, some t.issue⟩) :
    Moves holder issue P view.holds held view'.holds (update held object none) := by
  obtain ⟨hpos, hdeb⟩ := trustTransferLockedBalance_eq_ok htra
  rcases hdeb.record hne hpos hloc with ⟨hnot, hrec⟩ | ⟨⟨hsrc, hissue⟩, -, hrec⟩
  · refine moves_discard object hopen (fun ⟨hsrc, hissue⟩ => absurd ?_ hnot) hrec
    exact ⟨hsrc, Option.some.inj hissue⟩
  refine .single (.close object) ?_ fun _ => trivial
  rw [hrec hcount]
  exact .close object t.amount (hopen.trans (mark_self ⟨hsrc, congrArg some hissue⟩)) hpos.ne'

/-- **Paying a part of what is held for an object** lowers it. -/
theorem moves_transfer_lower {rest : ℚ}
        (hcount : t.deltaLockCount = 0) (hrest : 0 ≤ rest)
    (hopen : held object = mark holder issue t.src ⟨rest + t.amount, some t.issue⟩) :
    Moves holder issue (t.src = holder ∧ t.issue = issue → rest ≠ 0) view.holds held view'.holds
      (update held object (mark holder issue t.src ⟨rest, some t.issue⟩)) := by
  obtain ⟨hpos, hdeb⟩ := trustTransferLockedBalance_eq_ok htra
  rcases hdeb.record hne hpos hloc with ⟨hnot, hrec⟩ | ⟨hours, hrec, -⟩
  · have hoth : ∀ value, mark holder issue t.src ⟨value, some t.issue⟩ = none := fun value =>
    mark_of_not fun ⟨hsrc, hissue⟩ => hnot ⟨hsrc, Option.some.inj hissue⟩
    rw [hoth] at hopen ⊢
    rw [← hopen, update_eq_self]
    exact .idle (hrec _)
  · have hself : ∀ value, mark holder issue t.src ⟨value, some t.issue⟩ = some value := fun value =>
    mark_self ⟨hours.1, congrArg some hours.2⟩
    refine .single (.lower object t.amount rest) ?_ fun hreg => hreg hours
    rw [hrec hcount, hself]
    exact .lower object t.amount rest (hopen.trans (hself _)) hpos hrest

end

/-! ## Transactions -/

/-- The issuer has no escrow and no channel in tokens that the holder has issued. -/
structure NoReverse (holder : AccountID) (issue : Issue) (s : Holds) : Prop where
  escrow : ∀ key slep, s.escrow key = some slep → ¬ Reverse holder issue slep.account slep.amount
  payChan : ∀ key slep, s.payChan key = some slep → ¬ Reverse holder issue slep.account slep.amount

/-- **The holds change by acts on the purposes**, which are regular if `P` holds. -/
structure Tracked (holder : AccountID) (issue : Issue) (P : Prop) (s s' : Holds) : Prop where
  noReverse : NoReverse holder issue s'
  moves : Moves holder issue P s (s.marked holder issue) s' (s'.marked holder issue)

namespace Tracked

variable {s s' s'' : Holds}

theorem refl (h : NoReverse holder issue s) : Tracked holder issue P s s := ⟨h, .idle rfl⟩

theorem trans (h : Tracked holder issue P s s') (h' : Tracked holder issue P s' s'') :
    Tracked holder issue P s s'' := by
  obtain ⟨acts, hrun, hreg⟩ := h.moves
  obtain ⟨acts', hrun', hreg'⟩ := h'.moves
  refine ⟨h'.noReverse, acts ++ acts', hrun.trans hrun', fun hP act hact => ?_⟩
  rcases List.mem_append.mp hact with hact | hact
  · exact hreg hP act hact
  · exact hreg' hP act hact

theorem mono {Q : Prop} (h : Tracked holder issue P s s') (hPQ : Q → P) :
    Tracked holder issue Q s s' :=
  ⟨h.noReverse, h.moves.mono hPQ⟩

theorem of_escrow (h : NoReverse holder issue s) (key : UInt256) (escrow : Option Escrow)
    (hesc : s'.escrow = update s.escrow key escrow) (hpayChan : s'.payChan = s.payChan)
    (hrev : ∀ slep, escrow = some slep → ¬ Reverse holder issue slep.account slep.amount)
    (hmov : Moves holder issue P s (s.marked holder issue) s'
      (update (s.marked holder issue) (.inl key) (escrowMark holder issue escrow))) :
    Tracked holder issue P s s' where
  noReverse :=
    { escrow := fun key' slep hslep => by
        rw [hesc, update_apply] at hslep
        split at hslep
        · exact hrev slep hslep
        · exact h.escrow key' slep hslep
      payChan := hpayChan ▸ h.payChan }
  moves := by
    rw [marked_of_escrow hesc hpayChan]
    exact hmov

theorem of_payChan (h : NoReverse holder issue s) (key : UInt256) (payChan : Option PayChan)
    (hesc : s'.escrow = s.escrow) (hpayChan : s'.payChan = update s.payChan key payChan)
    (hrev : ∀ slep, payChan = some slep → ¬ Reverse holder issue slep.account slep.amount)
    (hmov : Moves holder issue P s (s.marked holder issue) s'
      (update (s.marked holder issue) (.inr key) (payChanMark holder issue payChan))) :
    Tracked holder issue P s s' where
  noReverse :=
    { escrow := hesc ▸ h.escrow
      payChan := fun key' slep hslep => by
        rw [hpayChan, update_apply] at hslep
        split at hslep
        · exact hrev slep hslep
        · exact h.payChan key' slep hslep }
  moves := by
    rw [marked_of_payChan hesc hpayChan]
    exact hmov

section

variable (h : NoReverse holder issue s) (hesc : s'.escrow = s.escrow)
  (hpayChan : s'.payChan = s.payChan)

include h hesc hpayChan

theorem setPayChan {payChan : Option PayChan}
    (hrev : ∀ slep, payChan = some slep → ¬ Reverse holder issue slep.account slep.amount)
    (hmov : Moves holder issue P s (s.marked holder issue) s'
      (update (s.marked holder issue) (.inr key) (payChanMark holder issue payChan))) :
    Tracked holder issue P s (s'.setPayChan key payChan) := by
  refine of_payChan h key payChan hesc ?_ hrev hmov
  rw [← hpayChan]
  rfl

theorem eraseEscrow (hmov : Moves holder issue P s (s.marked holder issue) s'
      (update (s.marked holder issue) (.inl key) none)) :
    Tracked holder issue P s (s'.setEscrow key none) := by
  refine of_escrow h key none ?_ hpayChan ?_ hmov
  · rw [← hesc]
    rfl
  · exact nofun

theorem erasePayChan (hmov : Moves holder issue P s (s.marked holder issue) s'
      (update (s.marked holder issue) (.inr key) none)) :
    Tracked holder issue P s (s'.setPayChan key none) :=
  setPayChan h hesc hpayChan (nofun)
    hmov

end

end Tracked

theorem mark_congr {amount' : STAmount} (hval : amount.value = amount'.value)
    (hissue : amount.issue = amount'.issue) :
    mark holder issue account amount = mark holder issue account amount' := by
  unfold mark
  rw [hval, hissue]

theorem payChanMark_congr (h : slep.SameFunds slep') :
    payChanMark holder issue (some slep') = payChanMark holder issue (some slep) := by
  rw [payChanMark, payChanMark, h.account, h.amount, h.balance]

theorem tracked_setPayChan (hslep : view.payChan key = some slep) (hs : slep.SameFunds slep')
    (h : NoReverse holder issue view.holds) :
    Tracked holder issue P view.holds (view.setPayChan key (some slep')).holds := by
  refine .setPayChan h rfl rfl ?_ ?_
  · rintro _ ⟨⟩
    rw [hs.account, hs.amount]
    exact h.payChan key slep hslep
  · have hmark : payChanMark holder issue (some slep') = view.holds.marked holder issue (.inr key) :=
      (payChanMark_congr hs).trans (congrArg (payChanMark holder issue) hslep).symm
    rw [hmark, update_eq_self]
    exact .idle rfl

theorem tracked_closeChannel
    (hclo : closeChannel env slep' key view = .ok view') (hslep : view.payChan key = some slep)
    (hs : slep.SameFunds slep') (h : NoReverse holder issue view.holds) :
    Tracked holder issue P view.holds view'.holds := by
  obtain ⟨amount, view₁, view₂, hval, hissue, hview₁, hunl, hview'⟩ := closeChannel_eq_ok hclo
  have hopen : view.holds.marked holder issue (.inr key) =
      mark holder issue slep'.account amount := by
    calc view.holds.marked holder issue (.inr key)
        = payChanMark holder issue (some slep) := congrArg (payChanMark holder issue) hslep
      _ = payChanMark holder issue (some slep') := (payChanMark_congr hs).symm
      _ = mark holder issue slep'.account amount := mark_congr hval.symm hissue.symm
  have hrev : ¬ Reverse holder issue slep'.account amount := by
    rintro ⟨hacc, hrev⟩
    refine h.payChan key slep hslep ⟨hs.account.symm.trans hacc, ?_⟩
    rw [← hs.amount, ← hissue]
    exact hrev
  rw [hview', ← hview₁]
  rw [← hview₁] at h hopen
  rcases unlockRemaining_eq_ok hunl with ⟨hnat, hh⟩ | ⟨issue', hissue', hadj⟩
  · rw [hh]
    refine .erasePayChan h rfl rfl (moves_discard _ hopen (fun ⟨_, hissue⟩ => ?_) fun _ => rfl)
    exact nomatch hnat.symm.trans hissue
  · obtain ⟨hesc, hpayChan⟩ := hadj.objects
    exact .erasePayChan h hesc hpayChan (moves_adjusted _ hissue' hadj hrev hopen)

section

variable (hne : issue.account ≠ holder) (h : NoReverse holder issue view.holds)

include hne h

theorem tracked_escrowCreate {tx : EscrowCreate} (htx : tx.doApply env view = .ok view')
    (hpos : 0 < tx.amount.value) (hrev : ¬ Reverse holder issue tx.account tx.amount) :
    Tracked holder issue P view.holds view'.holds := by
  obtain ⟨key, slep, view₁, view₂, hlock, hview₁, hview', hfree, hacc, hamo⟩ :=
    EscrowCreate.doApply_eq_ok htx
  obtain ⟨hesc, hpayChan⟩ := lockFunds_objects hlock
  have hlocks : view₁.holds.lock = view.holds.lock := by
    rw [hview₁]
    rfl
  rw [hview']
  refine .of_escrow h key (some slep) ?_ ?_ ?_ ?_
  · exact hesc.trans (congrArg Holds.escrow hview₁)
  · exact hpayChan.trans (congrArg Holds.payChan hview₁)
  · rintro _ ⟨⟩
    rw [hacc, hamo]
    exact hrev
  · rw [escrowMark, hacc, hamo]
    refine Moves.of_lock hlocks ?_
    exact moves_create (.inl key) hlock hne hpos hrev (congrArg (escrowMark holder issue) hfree)

theorem tracked_escrowFinish {tx : EscrowFinish} (htx : tx.doApply env view = .ok view')
    (hloc : 0 ≤ view.holds.locked holder issue) :
    Tracked holder issue P view.holds view'.holds := by
  obtain ⟨slep, view₁, view₂, hslep, hview₁, hpay, hview'⟩ := EscrowFinish.doApply_eq_ok htx
  have hopen : view.holds.marked holder issue (.inl tx.escrow) =
      mark holder issue slep.account slep.amount := congrArg (escrowMark holder issue) hslep
  rw [hview', ← hview₁]
  rw [← hview₁] at h hloc hopen
  rcases EscrowFinish.pay_eq_ok hpay with ⟨hnat, hh⟩ | ⟨issue', rate, hissue, htra⟩
  · rw [hh]
    refine .eraseEscrow h rfl rfl (moves_discard _ hopen (fun ⟨_, hissue⟩ => ?_) fun _ => rfl)
    exact nomatch hnat.symm.trans hissue
  · obtain ⟨hesc, hpayChan⟩ := trustTransferLockedBalance_objects htra
    refine .eraseEscrow h hesc hpayChan ?_
    refine moves_transfer_release (.inl tx.escrow) htra hne hloc rfl (hopen.trans ?_)
    exact mark_congr rfl hissue

theorem tracked_escrowCancel {tx : EscrowCancel} (htx : tx.doApply env view = .ok view') :
    Tracked holder issue P view.holds view'.holds := by
  obtain ⟨slep, view₁, view₂, hslep, hview₁, hunl, hview'⟩ := EscrowCancel.doApply_eq_ok htx
  have hopen : view.holds.marked holder issue (.inl tx.escrow) =
      mark holder issue slep.account slep.amount := congrArg (escrowMark holder issue) hslep
  have hrev : ¬ Reverse holder issue slep.account slep.amount := h.escrow _ slep hslep
  rw [hview', ← hview₁]
  rw [← hview₁] at h hopen
  rcases EscrowCancel.unlock_eq_ok hunl with ⟨hissr, hh⟩ | ⟨issue', hissue, hadj⟩
  · rw [hh]
    refine .eraseEscrow h rfl rfl (moves_discard _ hopen (fun ⟨hacc, hissue⟩ => ?_) fun _ => rfl)
    refine absurd ?_ hne
    rw [hissr issue hissue, hacc]
  · obtain ⟨hesc, hpayChan⟩ := hadj.objects
    exact .eraseEscrow h hesc hpayChan (moves_adjusted _ hissue hadj hrev hopen)

theorem tracked_payChanCreate {tx : PayChanCreate} (htx : tx.doApply env view = .ok view')
    (hpos : 0 < tx.amount.value) (hrev : ¬ Reverse holder issue tx.account tx.amount) :
    Tracked holder issue P view.holds view'.holds := by
  obtain ⟨key, slep, view₁, view₂, hlock, hview₁, hview', hfree, hacc, hamo, hbal⟩ :=
    PayChanCreate.doApply_eq_ok htx
  obtain ⟨hesc, hpayChan⟩ := lockFunds_objects hlock
  have hmark : payChanMark holder issue (some slep) = mark holder issue tx.account tx.amount := by
    rw [payChanMark, hacc, hamo, hbal, sub_zero]
  have hlocks : view₁.holds.lock = view.holds.lock := by
    rw [hview₁]
    rfl
  rw [hview']
  refine .of_payChan h key (some slep) ?_ ?_ ?_ ?_
  · exact hesc.trans (congrArg Holds.escrow hview₁)
  · exact hpayChan.trans (congrArg Holds.payChan hview₁)
  · rintro _ ⟨⟩
    rw [hacc, hamo]
    exact hrev
  · rw [hmark]
    refine Moves.of_lock hlocks ?_
    exact moves_create (.inr key) hlock hne hpos hrev (congrArg (payChanMark holder issue) hfree)

/-- The amount is in the token of the channel. -/
def OwnToken (view : View) (channel : UInt256) (amount : STAmount) : Prop :=
  ∀ slep, view.payChan channel = some slep → amount.issue = slep.amount.issue

/-- The channel is not the holder's in the token. -/
def NotOurs (holder : AccountID) (issue : Issue) (view : View) (channel : UInt256) : Prop :=
  ∀ slep, view.payChan channel = some slep →
    ¬ (slep.account = holder ∧ slep.amount.issue = some issue)

theorem tracked_payChanFund {tx : PayChanFund} (htx : tx.doApply env view = .ok view')
    (hpos : 0 < tx.amount.value) (hown : OwnToken view tx.channel tx.amount) :
    Tracked holder issue (NotOurs holder issue view tx.channel) view.holds view'.holds := by
  obtain ⟨slep, slep₁, hslep, hs, hclo | ⟨hacc, view₁, amount, hlock, hval, hissue,
    hview'⟩⟩ := PayChanFund.doApply_eq_ok htx
  · exact tracked_closeChannel hclo hslep hs h
  have hissue' : tx.amount.issue = slep.amount.issue := hown slep hslep
  have hrev : ¬ Reverse holder issue tx.account tx.amount := by
    rw [← hacc]
    exact fun ⟨hissr, hrev⟩ =>
      h.payChan _ slep hslep ⟨hissr, hissue'.symm.trans hrev⟩
  have hopen : view.holds.marked holder issue (.inr tx.channel) =
      mark holder issue tx.account ⟨slep.amount.value - slep.balance.value, tx.amount.issue⟩ := by
    rw [← hacc, hissue']
    exact congrArg (payChanMark holder issue) hslep
  have hmark : payChanMark holder issue (some { slep₁ with amount := amount }) =
      mark holder issue tx.account
        ⟨slep.amount.value - slep.balance.value + tx.amount.value, tx.amount.issue⟩ := by
    rw [payChanMark, hs.account, hs.balance, hacc]
    refine mark_congr ?_ (hissue.trans hissue'.symm)
    rw [hval]
    ring
  obtain ⟨hesc, hpayChan⟩ := lockFunds_objects hlock
  rw [hview']
  refine .setPayChan h hesc hpayChan ?_ ?_
  · rintro _ ⟨⟩ ⟨hissr, hrev⟩
    refine h.payChan _ slep hslep ⟨hs.account.symm.trans hissr, ?_⟩
    rw [← hissue]
    exact hrev
  · rw [hmark]
    refine (moves_raise (.inr tx.channel) hlock hne hpos hrev hopen).mono fun hnot => ?_
    rw [← hacc, hissue']
    exact hnot slep hslep

/-- The claim leaves something in a channel of the holder in the token. -/
def Leaves (holder : AccountID) (issue : Issue) (view : View) (channel : UInt256)
    (balance : STAmount) : Prop :=
  ∀ slep, view.payChan channel = some slep → slep.account = holder ∧ slep.amount.issue = some issue →
    balance.value ≠ slep.amount.value

theorem tracked_claim {reqBalance : STAmount}
    (hcla : tx.claim env slep reqBalance view = .ok (slep', view'))
    (hslep : view.payChan tx.channel = some slep)
    (hloc : 0 ≤ view.holds.locked holder issue) (hown : OwnToken view tx.channel reqBalance) :
    Tracked holder issue (Leaves holder issue view tx.channel reqBalance) view.holds view'.holds ∧
      view'.payChan tx.channel = some slep' := by
  obtain ⟨hfun, reqDelta, view₁, hval, hissue, hpay, rfl⟩ := PayChanClaim.claim_eq_ok hcla
  obtain ⟨hacc, hamo, hbal, hpaid⟩ := PayChanClaim.pay_eq_ok hpay
  refine ⟨?_, update_self _ _ _⟩
  have hown' : reqDelta.issue = slep.amount.issue := hissue.trans (hown slep hslep)
  have hrev : ∀ slep'', some slep' = some slep'' →
      ¬ Reverse holder issue slep''.account slep''.amount := by
    rintro _ ⟨⟩
    rw [hacc, hamo]
    exact h.payChan _ slep hslep
  have hopen : view.holds.marked holder issue (.inr tx.channel) =
      payChanMark holder issue (some slep) := congrArg (payChanMark holder issue) hslep
  rcases hpaid with ⟨hnat, hh⟩ | ⟨issue', rate, hissue', htra⟩
  · have hnot : ∀ value, mark holder issue slep.account ⟨value, slep.amount.issue⟩ = none :=
      fun value => mark_of_not fun ⟨_, hissue⟩ => nomatch (hown'.symm.trans hnat).symm.trans hissue
    rw [holds_setPayChan, hh]
    refine .setPayChan h rfl rfl hrev ?_
    have hmark : payChanMark holder issue (some slep') =
        view.holds.marked holder issue (.inr tx.channel) := by
      rw [hopen, payChanMark, payChanMark, hacc, hamo, hnot, hnot]
    rw [hmark, update_eq_self]
    exact .idle rfl
  · obtain ⟨hesc, hpayChan⟩ := trustTransferLockedBalance_objects htra
    rw [holds_setPayChan]
    refine .setPayChan h hesc hpayChan hrev ?_
    have hrest : 0 ≤ slep.amount.value - reqBalance.value := sub_nonneg.mpr hfun
    -- what was left is what is left now and what is paid
    have hpaid : payChanMark holder issue (some slep) = mark holder issue slep.account
        ⟨slep.amount.value - reqBalance.value + reqDelta.value, some issue'⟩ := by
      refine mark_congr ?_ (hown'.symm.trans hissue')
      rw [hval]
      ring
    have hmark : payChanMark holder issue (some slep') = mark holder issue slep.account
        ⟨slep.amount.value - reqBalance.value, some issue'⟩ := by
      rw [payChanMark, hacc, hamo, hbal]
      exact mark_congr rfl (hown'.symm.trans hissue')
    have hmov := moves_transfer_lower (.inr tx.channel) htra hne hloc rfl hrest
      (hopen.trans hpaid)
    rw [hmark]
    refine hmov.mono fun hlea ⟨hsrc, hissue⟩ => ?_
    refine sub_ne_zero.mpr (hlea slep hslep ⟨hsrc, ?_⟩).symm
    rw [← hown', hissue']
    exact congrArg some hissue

theorem tracked_payChanClaim (htx : tx.doApply env view = .ok view')
    (hloc : 0 ≤ view.holds.locked holder issue)
    (hown : ∀ balance, tx.balance = some balance → OwnToken view tx.channel balance) :
    Tracked holder issue
      (∀ balance, tx.balance = some balance → Leaves holder issue view tx.channel balance)
      view.holds view'.holds := by
  obtain ⟨slep, hslep, hclo | ⟨slep₁, view₁, slep₂, view₂, hcla, hren, hclo⟩⟩ :=
    PayChanClaim.doApply_eq_ok htx
  · exact tracked_closeChannel hclo hslep (.refl slep) h
  have h₁ : Tracked holder issue
      (∀ balance, tx.balance = some balance → Leaves holder issue view tx.channel balance)
      view.holds view₁.holds ∧ view₁.payChan tx.channel = some slep₁ := by
    rcases hcla with ⟨-, rfl, rfl⟩ | ⟨reqBalance, hbal, hcla⟩
    · exact ⟨.refl h, hslep⟩
    obtain ⟨htrac, hslep₁⟩ := tracked_claim hne h hcla hslep hloc (hown reqBalance hbal)
    exact ⟨htrac.mono fun hlea => hlea reqBalance hbal, hslep₁⟩
  have h₂ : Tracked holder issue
      (∀ balance, tx.balance = some balance → Leaves holder issue view tx.channel balance)
      view.holds view₂.holds ∧ view₂.payChan tx.channel = some slep₂ := by
    obtain ⟨hs, ⟨rfl, rfl⟩ | rfl⟩ := PayChanClaim.renewExpiration_eq_ok hren
    · exact h₁
    · exact ⟨h₁.1.trans (tracked_setPayChan h₁.2 hs h₁.1.noReverse), update_self _ _ _⟩
  obtain hclo | rfl | ⟨slep₃, rfl, hs⟩ := PayChanClaim.requestClose_eq_ok hclo
  · exact h₂.1.trans (tracked_closeChannel hclo h₂.2 (.refl slep₂) h₂.1.noReverse)
  · exact h₂.1
  · exact h₂.1.trans (tracked_setPayChan h₂.2 hs h₂.1.noReverse)

end

section

variable (holder : AccountID) (issue : Issue) (view : View)

/-- The issuer locks no tokens of the holder, and channels are funded and claimed in their token. -/
def Plain : Event → Prop
  | .tx (.escrowCreate tx) => ¬ Reverse holder issue tx.account tx.amount
  | .tx (.payChanCreate tx) => ¬ Reverse holder issue tx.account tx.amount
  | .tx (.payChanFund tx) => OwnToken view tx.channel tx.amount
  | .tx (.payChanClaim tx) => ∀ balance, tx.balance = some balance → OwnToken view tx.channel balance
  | _ => True

/-- No channel of the holder in the token is funded or drained. -/
def Lasting : Event → Prop
  | .tx (.payChanFund tx) => NotOurs holder issue view tx.channel
  | .tx (.payChanClaim tx) =>
    ∀ balance, tx.balance = some balance → Leaves holder issue view tx.channel balance
  | _ => True

end

/-- **A plain transaction acts on the purposes**, regularly if it is lasting. -/
theorem tracked_tx {tx : Tx} (hne : issue.account ≠ holder)
    (hloc : 0 ≤ view.holds.locked holder issue) (hpla : Plain holder issue view (.tx tx))
    (h : NoReverse holder issue view.holds) :
    Tracked holder issue (Lasting holder issue view (.tx tx)) view.holds (tx.apply env view).holds := by
  refine Tx.apply_induction (P := fun v =>
    Tracked holder issue (Lasting holder issue view (.tx tx)) view.holds v.holds) (.refl h) ?_
  intro view' hrun
  cases tx with
  | escrowCreate tx =>
    obtain ⟨_, hpre, hrun⟩ := bind_eq_ok.mp hrun
    exact tracked_escrowCreate hne h hrun (EscrowCreate.preflight_pos hpre) hpla
  | escrowFinish tx => exact tracked_escrowFinish hne h hrun hloc
  | escrowCancel tx => exact tracked_escrowCancel hne h hrun
  | payChanCreate tx =>
    obtain ⟨_, hpre, hrun⟩ := bind_eq_ok.mp hrun
    replace hrun := of_check hrun
    exact tracked_payChanCreate hne h hrun (PayChanCreate.preflight_pos hpre) hpla
  | payChanFund tx =>
    obtain ⟨_, hpre, hrun⟩ := bind_eq_ok.mp hrun
    exact tracked_payChanFund hne h hrun (PayChanFund.preflight_pos hpre) hpla
  | payChanClaim tx =>
    replace hrun := of_check hrun
    exact tracked_payChanClaim hne h hrun hloc hpla

end Xahau.Token
