import Xahau.Token.Effects

/-! # Deferred credits of a payment (`PaymentSandbox.cpp`)

A sandbox records what is sent on each line and the balance before, so that what arrives in a payment
cannot be spent in it. Sandboxes stand on each other, and hooks are called in the top one. A table is
what its calls have recorded; to apply it to its parent is to make its calls there. -/

namespace Xahau.Token

open Function

/-! ## Tables -/

/-- A call of `creditHook` or of `adjustOwnerCountHook`. -/
inductive HookCall
  | credit (sender receiver : AccountID) (currency : Currency) (amount preCreditBalance : ℚ)
  | ownerCount (id : AccountID) (cur next : ℕ)

/-- `DeferredCredits::Value`. -/
structure DeferredValue where
  lowAcctCredits : ℚ
  highAcctCredits : ℚ
  lowAcctOrigBalance : ℚ

/-- `DeferredCredits::Adjustment`. -/
structure Adjustment where
  debits : ℚ
  credits : ℚ
  origBalance : ℚ

/-- `DeferredCredits`. -/
@[ext] structure DeferredCredits where
  credits : LineKey → Option DeferredValue := fun _ => none
  ownerCounts : AccountID → Option ℕ := fun _ => none

namespace DeferredCredits

/-- `DeferredCredits::credit`. The balance is recorded the first time only. -/
def credit (sender receiver : AccountID) (currency : Currency) (amount preCreditSenderBalance : ℚ)
    (tab : DeferredCredits) : DeferredCredits :=
  let k := lineKey sender receiver currency
  let v := (tab.credits k).elim
    (if sender.data < receiver.data then ⟨0, amount, preCreditSenderBalance⟩
      else ⟨amount, 0, -preCreditSenderBalance⟩)
    fun v =>
      if sender.data < receiver.data then { v with highAcctCredits := v.highAcctCredits + amount }
      else { v with lowAcctCredits := v.lowAcctCredits + amount }
  { tab with credits := Function.update tab.credits k (some v) }

/-- `DeferredCredits::ownerCount`, which remembers the greatest count. -/
def ownerCount (id : AccountID) (cur next : ℕ) (tab : DeferredCredits) : DeferredCredits :=
  { tab with
    ownerCounts := Function.update tab.ownerCounts id
      (some ((tab.ownerCounts id).elim (max cur next) (max (max cur next)))) }

/-- `DeferredCredits::adjustments`. -/
def adjustments (main other : AccountID) (currency : Currency) (tab : DeferredCredits) :
    Option Adjustment :=
  (tab.credits (lineKey main other currency)).map fun v =>
    if main.data < other.data then ⟨v.highAcctCredits, v.lowAcctCredits, v.lowAcctOrigBalance⟩
    else ⟨v.lowAcctCredits, v.highAcctCredits, -v.lowAcctOrigBalance⟩

/-- `DeferredCredits::apply`. The original balance of the parent is already correct. -/
def apply (tab parent : DeferredCredits) : DeferredCredits where
  credits k := (parent.credits k).merge (fun toVal fromVal =>
    { toVal with
      lowAcctCredits := toVal.lowAcctCredits + fromVal.lowAcctCredits
      highAcctCredits := toVal.highAcctCredits + fromVal.highAcctCredits }) (tab.credits k)
  ownerCounts id := (parent.ownerCounts id).merge max (tab.ownerCounts id)

/-- The hooks that write to the table. -/
def record (tab : DeferredCredits) : HookCall → DeferredCredits
  | .credit sender receiver currency amount preCreditBalance =>
    tab.credit sender receiver currency amount preCreditBalance
  | .ownerCount id cur next => tab.ownerCount id cur next

/-- The table after calls. -/
def replay (calls : List HookCall) : DeferredCredits := calls.foldl record {}

end DeferredCredits

/-- What the loop of `balanceHook` has found. -/
structure Adjusting where
  delta : ℚ
  lastBal : ℚ
  minBal : ℚ

/-- One sandbox in the loop. -/
def Adjusting.adjust (b : Adjusting) : Option Adjustment → Adjusting
  | none => b
  | some adj => ⟨b.delta + adj.debits, adj.origBalance, min b.minBal adj.origBalance⟩

section

variable (stack : List DeferredCredits) (account issuer : AccountID) (currency : Currency)
  (amount : ℚ)

/-- What `balanceHook` returns after the loop. A negative native balance is cleared. -/
def Adjusting.result (b : Adjusting) : ℚ :=
  let adjustedAmt := min (min amount (b.lastBal - b.delta)) b.minBal
  if issuer = .zero ∧ adjustedAmt < 0 then 0 else adjustedAmt

/-- `PaymentSandbox::balanceHook`, with the loop from the top sandbox down. -/
def balanceHook : ℚ :=
  ((stack.map (·.adjustments account issuer currency)).foldl Adjusting.adjust
    ⟨0, amount, amount⟩).result issuer amount

/-- `PaymentSandbox::ownerCountHook`. -/
def ownerCountHook (count : ℕ) : ℕ :=
  stack.foldl (fun result tab => (tab.ownerCounts account).elim result (max result)) count

end

/-! ## Histories -/

/-- What an account sends to another in a call. -/
def HookCall.sends (main other : AccountID) (currency : Currency) : HookCall → ℚ
  | .credit sender receiver currency' amount _ =>
    if sender = main ∧ receiver = other ∧ currency' = currency then amount else 0
  | .ownerCount .. => 0

/-- What an account has sent to another. -/
def sent (main other : AccountID) (currency : Currency) (calls : List HookCall) : ℚ :=
  (calls.map (HookCall.sends main other currency)).sum

/-- The balances of the lines, as each of the two accounts sees them. -/
structure Lines where
  balance : AccountID → AccountID → Currency → ℚ
  balance_comm : ∀ main other currency, balance other main currency = -balance main other currency

/-- The balance of an account on a line after calls. -/
def Lines.after (lines : Lines) (calls : List HookCall) (main other : AccountID)
    (currency : Currency) : ℚ :=
  lines.balance main other currency - sent main other currency calls + sent other main currency calls

/-- A call as the code asserts it, with the true balance. -/
def HookCall.Sound (lines : Lines) (before : List HookCall) : HookCall → Prop
  | .credit sender receiver currency amount preCreditBalance =>
    sender ≠ receiver ∧ 0 ≤ amount ∧ preCreditBalance = lines.after before sender receiver currency
  | .ownerCount .. => True

/-- The calls are sound, one after the other. -/
def Truthful (lines : Lines) : List HookCall → List HookCall → Prop
  | _, [] => True
  | before, call :: calls => call.Sound lines before ∧ Truthful lines (before ++ [call]) calls

/-- The calls in a stack of sandboxes, the oldest first. The top sandbox has the last ones. -/
def history (stack : List (List HookCall)) : List HookCall := stack.reverse.flatten

open DeferredCredits

variable {lines : Lines} {before calls log : List HookCall} {stack : List (List HookCall)}
  {main other : AccountID} {currency : Currency}

theorem sent_append (calls calls' : List HookCall) :
    sent main other currency (calls ++ calls')
      = sent main other currency calls + sent main other currency calls' := by
  simp [sent]

theorem sent_nil : sent main other currency [] = 0 := rfl

theorem sent_singleton (call : HookCall) :
    sent main other currency [call] = call.sends main other currency := by
  simp [sent]

theorem history_cons (log : List HookCall) (stack : List (List HookCall)) :
    history (log :: stack) = history stack ++ log := by
  simp [history]

theorem history_append (above below : List (List HookCall)) :
    history (above ++ below) = history below ++ history above := by
  simp [history]

theorem truthful_append {calls' : List HookCall} :
    Truthful lines before (calls ++ calls') ↔
      Truthful lines before calls ∧ Truthful lines (before ++ calls) calls' := by
  induction calls generalizing before with
  | nil => simp [Truthful]
  | cons call calls ih => simp [Truthful, ih, and_assoc]

theorem sent_nonneg (h : Truthful lines before calls) : 0 ≤ sent main other currency calls := by
  induction calls generalizing before with
  | nil => simp [sent]
  | cons call calls ih =>
    rw [← List.singleton_append, sent_append, sent_singleton]
    refine add_nonneg ?_ (ih h.2)
    cases call with
    | credit sender receiver currency' amount preCreditBalance =>
      simp only [HookCall.sends]
      split
      · exact h.1.2.1
      · exact le_rfl
    | ownerCount => exact le_rfl

/-! ## What is recorded -/

section

variable (hne : main ≠ other) (tab : DeferredCredits) (amount pre : ℚ)

include hne

theorem adjustments_credit_self :
    (tab.credit main other currency amount pre).adjustments main other currency
      = some ((tab.adjustments main other currency).elim ⟨amount, 0, pre⟩
        fun adj => { adj with debits := adj.debits + amount }) := by
  simp only [DeferredCredits.credit, adjustments, update_self]
  rcases data_lt_or_gt hne with h | h <;> cases tab.credits (lineKey main other currency) <;>
    simp [h, List.lt_asymm h]

theorem adjustments_credit_other :
    (tab.credit other main currency amount pre).adjustments main other currency
      = some ((tab.adjustments main other currency).elim ⟨0, amount, -pre⟩
        fun adj => { adj with credits := adj.credits + amount }) := by
  rw [DeferredCredits.credit, lineKey_comm other main]
  simp only [adjustments, update_self]
  rcases data_lt_or_gt hne with h | h <;> cases tab.credits (lineKey main other currency) <;>
    simp [h, List.lt_asymm h]

end

/-- **What a table has of a line**: nothing, or what was sent in both directions, and the balance before
its first call. -/
theorem adjustments_replay (main other : AccountID) (currency : Currency)
    (h : Truthful lines before log) :
    ((replay log).adjustments main other currency = none ∧ sent main other currency log = 0 ∧
      sent other main currency log = 0) ∨
    (replay log).adjustments main other currency
      = some ⟨sent main other currency log, sent other main currency log,
        lines.after before main other currency⟩ := by
  induction log using List.reverseRecOn with
  | nil => exact .inl ⟨rfl, rfl, rfl⟩
  | append_singleton log call ih =>
    obtain ⟨hlog, hcall, -⟩ := truthful_append.mp h
    have hrep : replay (log ++ [call]) = (replay log).record call := by simp [replay]
    rw [hrep, sent_append, sent_append, sent_singleton, sent_singleton]
    cases call with
    | ownerCount id cur next =>
      simpa [HookCall.sends, record, DeferredCredits.ownerCount, adjustments] using ih hlog
    | credit sender receiver currency' amount pre =>
      obtain ⟨hne, -, hpre⟩ := hcall
      by_cases hself : sender = main ∧ receiver = other ∧ currency' = currency
      · obtain ⟨rfl, rfl, rfl⟩ := hself
        right
        rw [record, adjustments_credit_self hne, hpre]
        rcases ih hlog with ⟨hn, hsent, hrec⟩ | hsome
        · simp [hn, hsent, hrec, HookCall.sends, hne, Lines.after, sent_append]
        · simp [hsome, HookCall.sends, hne]
      · by_cases hoth : sender = other ∧ receiver = main ∧ currency' = currency
        · obtain ⟨rfl, rfl, rfl⟩ := hoth
          right
          rw [record, adjustments_credit_other hne.symm, hpre]
          rcases ih hlog with ⟨hn, hsent, hrec⟩ | hsome
          · have hbal := lines.balance_comm receiver sender currency'
            simp only [hn, hsent, hrec, HookCall.sends, Lines.after, sent_append]
            simp [hne, hbal]
            ring
          · simp [hsome, HookCall.sends, hne]
        · -- another line
          have hkey : lineKey main other currency ≠ lineKey sender receiver currency' := by
            intro hkey
            obtain ⟨rfl, ⟨rfl, rfl⟩ | ⟨rfl, rfl⟩⟩ := lineKey_eq_lineKey hkey
            · exact hself ⟨rfl, rfl, rfl⟩
            · exact hoth ⟨rfl, rfl, rfl⟩
          simpa [HookCall.sends, hself, hoth, record, DeferredCredits.credit, adjustments, hkey]
            using ih hlog

/-- A call in a sandbox has the same effect after it was applied to its parent. -/
theorem apply_record (tab parent : DeferredCredits) (call : HookCall) :
    (tab.record call).apply parent = (tab.apply parent).record call := by
  cases call with
  | credit sender receiver currency amount pre =>
    refine DeferredCredits.ext (funext fun k => ?_) rfl
    simp only [apply, record, DeferredCredits.credit]
    by_cases hkey : k = lineKey sender receiver currency
    · subst hkey
      cases parent.credits (lineKey sender receiver currency) <;>
        cases tab.credits (lineKey sender receiver currency) <;>
        by_cases hlow : sender.data < receiver.data <;> simp [hlow, add_assoc]
    · simp [update_of_ne hkey]
  | ownerCount id cur next =>
    refine DeferredCredits.ext rfl (funext fun id' => ?_)
    simp only [apply, record, DeferredCredits.ownerCount]
    by_cases hid : id' = id
    · subst hid
      cases parent.ownerCounts id' <;> cases tab.ownerCounts id' <;>
        simp [max_comm, max_left_comm]
    · simp [update_of_ne hid]

/-- **To apply a sandbox to its parent is to make its calls there.** -/
theorem apply_replay (calls : List HookCall) (parent : DeferredCredits) :
    (replay calls).apply parent = calls.foldl record parent := by
  induction calls using List.reverseRecOn with
  | nil => simp [replay, apply]
  | append_singleton calls call ih =>
    have hrep : replay (calls ++ [call]) = (replay calls).record call := by simp [replay]
    rw [hrep, apply_record, ih, List.foldl_concat]

theorem replay_append (calls calls' : List HookCall) :
    replay (calls ++ calls') = (replay calls').apply (replay calls) := by
  rw [apply_replay, replay, List.foldl_append, replay]

/-- The adjustment of a sandbox together with that of its parent. -/
def Adjustment.add (parent adj : Adjustment) : Adjustment :=
  ⟨parent.debits + adj.debits, parent.credits + adj.credits, parent.origBalance⟩

theorem adjustments_apply (tab parent : DeferredCredits) :
    (tab.apply parent).adjustments main other currency
      = (parent.adjustments main other currency).merge Adjustment.add
        (tab.adjustments main other currency) := by
  unfold apply adjustments
  dsimp only
  cases parent.credits (lineKey main other currency) <;>
    cases tab.credits (lineKey main other currency) <;> split <;> rfl

/-! ## Stacks -/

open Adjusting

/-- **What the loop finds** is what one sandbox with all the calls has recorded, and no balance that is
below what is left. -/
theorem foldl_adjust (main other : AccountID) (currency : Currency)
    (h : Truthful lines [] (history stack)) (b : Adjusting) :
    ∃ b', (stack.map fun log => (replay log).adjustments main other currency).foldl adjust b = b' ∧
      ((replay (history stack)).adjustments main other currency = none ∧ b' = b ∨
      ∃ adj, (replay (history stack)).adjustments main other currency = some adj ∧
        b'.delta = b.delta + adj.debits ∧ b'.lastBal = adj.origBalance ∧
        min b.minBal (adj.origBalance - adj.debits) ≤ b'.minBal) := by
  induction stack generalizing b with
  | nil => exact ⟨b, rfl, .inl ⟨rfl, rfl⟩⟩
  | cons log stack ih =>
    rw [history_cons] at h
    obtain ⟨hbel, hlog⟩ := truthful_append.mp h
    obtain ⟨b', hb', hfou⟩ := ih hbel (b.adjust ((replay log).adjustments main other currency))
    refine ⟨b', hb', ?_⟩
    rw [history_cons, replay_append, adjustments_apply]
    rcases adjustments_replay main other currency hlog with ⟨hn, -⟩ | hsome
    · rw [hn] at hfou ⊢
      rwa [Option.merge_none_right]
    have hsent : 0 ≤ sent main other currency log := sent_nonneg hlog
    rw [hsome, List.nil_append] at hfou ⊢
    rcases hfou with ⟨hn, rfl⟩ | ⟨adj, hadj, hdel, hlast, hle⟩
    · rw [hn]
      exact .inr ⟨_, rfl, rfl, rfl, min_le_min_left _ (sub_le_self _ hsent)⟩
    rw [hadj]
    refine .inr ⟨_, rfl, ?_, hlast, le_trans (le_min (min_le_min_left _ ?_) ?_) hle⟩
    · rw [hdel, adjust, Adjustment.add]
      ring
    · -- the balance when the calls of this sandbox began
      rcases adjustments_replay main other currency hbel with ⟨hn, -⟩ | hall
      · exact nomatch hadj.symm.trans hn
      cases hadj.symm.trans hall
      have hrec : 0 ≤ sent other main currency (history stack) := sent_nonneg hbel
      simp only [Adjustment.add, Lines.after, sent_nil]
      linarith
    · refine (min_le_right _ _).trans ?_
      simp only [Adjustment.add]
      linarith

variable {above below later rest : List (List HookCall)} {child parent : List HookCall}
  {account issuer : AccountID} {amount : ℚ} {count : ℕ}

theorem result_eq {b : Adjusting} (h : min amount (b.lastBal - b.delta) ≤ b.minBal) :
    b.result issuer amount = result issuer amount ⟨b.delta, b.lastBal, amount⟩ := by
  simp [result, min_eq_left h]

/-- **Only the calls matter**, not how they are distributed over the sandboxes of a stack. -/
theorem balanceHook_eq (h : Truthful lines [] (history stack)) :
    balanceHook (stack.map replay) account issuer currency amount
      = ((replay (history stack)).adjustments account issuer currency).elim
        (result issuer amount ⟨0, amount, amount⟩)
        fun adj => result issuer amount ⟨adj.debits, adj.origBalance, amount⟩ := by
  obtain ⟨b, hb, hfou⟩ := foldl_adjust account issuer currency h ⟨0, amount, amount⟩
  have hres : balanceHook (stack.map replay) account issuer currency amount
      = b.result issuer amount := by
    simp [balanceHook, comp_def, hb]
  rw [hres]
  rcases hfou with ⟨hn, rfl⟩ | ⟨adj, hadj, hdel, hlast, hle⟩
  · rw [hn]
    rfl
  rw [zero_add] at hdel
  rw [hadj, result_eq (by rwa [hlast, hdel]), hlast, hdel]
  rfl

theorem adjustments_history_eq_none
    (h : ∀ log ∈ stack, (replay log).adjustments main other currency = none) :
    (replay (history stack)).adjustments main other currency = none := by
  induction stack with
  | nil => rfl
  | cons log stack ih =>
    obtain ⟨hlog, hrest⟩ := List.forall_mem_cons.mp h
    rw [history_cons, replay_append, adjustments_apply, ih hrest, hlog]
    rfl

theorem result_le (b : Adjusting) :
    b.result issuer amount
      ≤ if issuer = .zero then max 0 (b.lastBal - b.delta) else b.lastBal - b.delta := by
  have hle : min (min amount (b.lastBal - b.delta)) b.minBal ≤ b.lastBal - b.delta :=
    (min_le_left _ _).trans (min_le_right _ _)
  simp only [result]
  by_cases hzero : issuer = .zero
  · rw [if_pos hzero]
    split
    · exact le_max_left _ _
    · exact hle.trans (le_max_right _ _)
  · rwa [if_neg hzero, if_neg fun h => hzero h.1]

theorem ownerCountHook_apply :
    ownerCountHook ((later ++ (parent ++ child) :: rest).map replay) account count
      = ownerCountHook ((later ++ child :: parent :: rest).map replay) account count := by
  simp only [ownerCountHook, List.map_append, List.map_cons, List.foldl_append, List.foldl_cons,
    replay_append, apply]
  congr 1
  cases (replay child).ownerCounts account <;> cases (replay parent).ownerCounts account <;>
    simp [max_comm, max_left_comm]

/-- **Deferral**: what can be spent is at most the balance when the outermost sandbox that has the line
first saw it, less what was sent since; of a native balance also nothing. Applying the top sandbox to its
parent changes no later answer. -/
theorem balanceHook_deferred (h : Truthful lines [] (history stack)) (account issuer : AccountID)
    (currency : Currency) (amount : ℚ) (count : ℕ) :
    (∀ above log below, stack = above ++ log :: below →
      (replay log).adjustments account issuer currency ≠ none →
      (∀ log ∈ below, (replay log).adjustments account issuer currency = none) →
      let left := lines.after (history below) account issuer currency
        - sent account issuer currency (history (above ++ [log]))
      balanceHook (stack.map replay) account issuer currency amount
        ≤ if issuer = .zero then max 0 left else left) ∧
    (∀ later child more parent rest, stack = later ++ (child ++ more) :: parent :: rest →
      let applied := later.map replay ++
        more.foldl record ((replay child).apply (replay parent)) :: rest.map replay
      balanceHook applied account issuer currency amount
          = balanceHook (stack.map replay) account issuer currency amount ∧
        ownerCountHook applied account count = ownerCountHook (stack.map replay) account count) := by
  refine ⟨?_, ?_⟩
  · rintro above log below rfl hlog hbelow left
    have hhistory : history (above ++ log :: below) = history below ++ history (above ++ [log]) := by
      simp [history]
    rw [balanceHook_eq h]
    rcases adjustments_replay account issuer currency h with ⟨hnone, -⟩ | hsome
    · refine absurd hnone ?_
      rw [history_append, history_cons, replay_append, replay_append, adjustments_apply,
        adjustments_apply]
      cases hcase : (replay log).adjustments account issuer currency
      · exact absurd hcase hlog
      · cases (replay (history below)).adjustments account issuer currency <;>
          cases (replay (history above)).adjustments account issuer currency <;> simp
    · rw [hhistory] at h hsome ⊢
      rcases adjustments_replay account issuer currency (truthful_append.mp h).1 with
        ⟨-, hsent, hreceived⟩ | hrecorded
      · have hleft : left = lines.balance account issuer currency
            - sent account issuer currency (history below ++ history (above ++ [log])) := by
          simp [left, Lines.after, sent_append, hsent, hreceived]
        rw [hsome, hleft]
        simpa [Lines.after, sent_nil] using result_le _
      · exact nomatch hrecorded.symm.trans (adjustments_history_eq_none hbelow)
  · rintro later child more parent rest rfl applied
    have happlied : applied = (later ++ (parent ++ (child ++ more)) :: rest).map replay := by
      simp only [applied, apply_replay]
      simp [replay]
    rw [happlied]
    have hsame : history (later ++ (parent ++ (child ++ more)) :: rest)
        = history (later ++ (child ++ more) :: parent :: rest) := by
      simp [history]
    refine ⟨?_, ownerCountHook_apply⟩
    rw [balanceHook_eq h, balanceHook_eq (hsame ▸ h), hsame]

/-- The balances of a sample: an account has ten drops. -/
def sandboxLines : Lines where
  balance main other _ :=
    (if main = .ofByte 1 ∧ other = .zero then 10 else 0)
      - if other = .ofByte 1 ∧ main = .zero then 10 else 0
  balance_comm _ _ _ := (neg_sub _ _).symm

/-- The account receives 100 drops and sends 50. -/
def sampleCalls : List HookCall :=
  [.credit .zero (.ofByte 1) .zero 100 (-10), .credit (.ofByte 1) .zero .zero 50 110]

theorem sampleCalls_truthful : Truthful sandboxLines [] sampleCalls :=
  ⟨⟨by decide, by norm_num, by decide +kernel⟩, ⟨by decide, by norm_num, by decide +kernel⟩, trivial⟩

/-- What has arrived cannot be spent, before and after the sandbox is applied to its parent. -/
theorem sampleCalls_deferred :
    balanceHook ([sampleCalls, []].map replay) (.ofByte 1) .zero .zero 60 ≤ 0 ∧
      balanceHook [(replay sampleCalls).apply (replay [])] (.ofByte 1) .zero .zero 60
        = balanceHook ([sampleCalls, []].map replay) (.ofByte 1) .zero .zero 60 := by
  obtain ⟨hbound, happly⟩ := balanceHook_deferred
    (show Truthful sandboxLines [] (history [sampleCalls, []]) from sampleCalls_truthful)
    (.ofByte 1) .zero .zero 60 0
  refine ⟨(hbound [] sampleCalls [[]] rfl (by decide +kernel) (by simp; rfl)).trans ?_,
    (happly [] sampleCalls [] [] [] (by simp)).1⟩
  decide +kernel

/-- **A native balance that would be negative is cleared**: the answer is 0, which is more than the ten
drops less the 50 that were sent. -/
theorem native_balance_cleared :
    Truthful sandboxLines [] (history [sampleCalls]) ∧
      balanceHook ([sampleCalls].map replay) (.ofByte 1) .zero .zero 60 = 0 ∧
      sandboxLines.after [] (.ofByte 1) .zero .zero
        - sent (.ofByte 1) .zero .zero (history [sampleCalls]) = -40 :=
  ⟨sampleCalls_truthful, by decide +kernel, by decide +kernel⟩

end Xahau.Token
