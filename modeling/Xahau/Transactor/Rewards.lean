import Xahau.Transactor.Funds

/-! # Balance rewards (`Transactor.cpp`, `ClaimReward.cpp`)

An account that has opted in accumulates its balance, in whole units, over the ledgers. When a
transaction changes the balance, the accumulator is brought up to date with the balance before. This
is right as long as the whole units do not change without it. They can: an account without a whole
unit is skipped, and the hooks that run after a transaction are paid when the rewards were already
seen to. -/

namespace Xahau.Transactor

open Checked Function Hook List

variable {aawMap : List (AccountID × List UInt256)} {ids : List UInt256} {settled : Settled}
  {result result' : Ter} {final : ℕ}

/-- `sfRewardLgrFirst`, `sfRewardLgrLast` and `sfRewardAccumulator`. -/
def rewardFields (sle : AccountRoot) : Option Nat × Option Nat × Option Nat :=
  (sle.rewardLgrFirst, sle.rewardLgrLast, sle.rewardAccumulator)

namespace ClaimReward

/-- `tfOptOut`. -/
def tfOptOut : Nat := 1

/-- `ClaimReward::doApply` on the account root: it only resets the counters. -/
def resetCounters (isOptOut : Bool) (lgrCur : Nat) (sle : AccountRoot) : AccountRoot :=
  if isOptOut then
    { sle with rewardLgrFirst := none, rewardLgrLast := none, rewardAccumulator := none }
  else
    { sle with
      rewardLgrFirst := some lgrCur
      rewardLgrLast := some lgrCur
      rewardAccumulator := some 0 }

end ClaimReward

/-! ## The rewards of one account -/

/-- The previous balance of a modified root: present if it has changed. -/
def previousBalance (before after : Int) : Option Int := if before = after then none else some before

/-- An account root after the balance rewards, if it had a balance. -/
def rewarded (rules : Rules) (lgrCur : Nat) (before : Int) (sle : AccountRoot) : AccountRoot :=
  match previousBalance before sle.balance with
  | none => sle
  | some drops => accrue rules lgrCur drops sle

/-! ## The rewards among the other effects of a transaction -/

/-- The affected account roots: each once, all whose balance has changed, with the previous balance.
-/
structure MetaFor (before view : View) (nodes : List AffectedRoot) : Prop where
  nodup : (nodes.map AffectedRoot.account).Nodup
  previous : ∀ node ∈ nodes, node.previousFields.join =
    (before.account node.account).bind fun sle => (view.account node.account).bind fun sle' =>
      previousBalance sle.balance sle'.balance
  modified : ∀ acc sle sle', before.account acc = some sle → view.account acc = some sle' →
    sle.balance ≠ sle'.balance → acc ∈ nodes.map AffectedRoot.account

section

variable {env : Env} {tx : STTx} {before view view' : View} {acc : AccountID}
  {sle sle' : AccountRoot} {nodes : List AffectedRoot} {node : AffectedRoot}

theorem account_reward_of_ne (h : acc ≠ node.account) :
    (reward view node).account acc = view.account acc := by
  unfold reward
  split
  · exact update_of_ne h ..
  · rfl

theorem account_foldl_reward_of_notMem (h : acc ∉ nodes.map AffectedRoot.account) :
    (nodes.foldl reward view).account acc = view.account acc := by
  induction nodes generalizing view with
  | nil => rfl
  | cons node nodes ih =>
    rw [map_cons, mem_cons, not_or] at h
    rw [foldl_cons, ih h.2, account_reward_of_ne h.1]

theorem rules_seq_reward (view : View) (node : AffectedRoot) :
    (reward view node).rules = view.rules ∧ (reward view node).seq = view.seq := by
  unfold reward
  split <;> exact ⟨rfl, rfl⟩

theorem account_foldl_reward (hnd : (nodes.map AffectedRoot.account).Nodup) (hnode : node ∈ nodes)
    (hacc : view.account node.account = some sle) :
    (nodes.foldl reward view).account node.account =
      some ((node.rewardBalance view.rules).elim sle fun drops =>
        accrue view.rules view.seq drops sle) := by
  induction nodes generalizing view with
  | nil => exact nomatch hnode
  | cons node' nodes ih =>
    rw [map_cons, nodup_cons] at hnd
    rw [foldl_cons]
    rcases mem_cons.mp hnode with rfl | hnode
    · rw [account_foldl_reward_of_notMem hnd.1]
      unfold reward
      rw [hacc]
      cases hdro : node.rewardBalance view.rules with
      | none => exact hacc
      | some drops => exact update_self ..
    · have hne : node.account ≠ node'.account := by
        intro heq
        exact hnd.1 (heq ▸ mem_map_of_mem hnode)
      obtain ⟨hrul, hseq⟩ := rules_seq_reward view node'
      rw [ih hnd.2 hnode (by rw [account_reward_of_ne hne, hacc]), hrul, hseq]

/-- **The rewards of a transaction** reach the accounts whose balance has changed. -/
theorem account_rewards (hrew : view.rules.enabled .featureBalanceRewards = true)
    (h240819 : view.rules.enabled .fix240819 = true)
    (hmeta : MetaFor before view (env.affectedRoots view)) (hbef : before.account acc = some sle)
    (hacc : view.account acc = some sle') :
    (rewards env view).account acc = some (rewarded view.rules view.seq sle.balance sle') := by
  unfold rewards
  rw [if_pos hrew]
  by_cases hmem : acc ∈ (env.affectedRoots view).map AffectedRoot.account
  · obtain ⟨node, hnode, rfl⟩ := mem_map.mp hmem
    have hbal : node.rewardBalance view.rules = previousBalance sle.balance sle'.balance := by
      unfold AffectedRoot.rewardBalance
      rw [if_pos h240819, hmeta.previous node hnode, hbef, hacc]
      rfl
    rw [account_foldl_reward hmeta.nodup hnode hacc, hbal]
    unfold rewarded
    cases previousBalance sle.balance sle'.balance <;> rfl
  · have hs : sle.balance = sle'.balance :=
      not_not.mp fun hne => hmem (hmeta.modified acc sle sle' hbef hacc hne)
    rw [account_foldl_reward_of_notMem hmem, hacc]
    unfold rewarded previousBalance
    rw [if_pos hs]

/-- Nothing happens to the fields of the rewards. -/
def SameRewards (view view' : View) : Prop :=
  ∀ acc, (view'.account acc).map rewardFields = (view.account acc).map rewardFields

theorem HookWrites.sameRewards (h : HookWrites view view') : SameRewards view view' := by
  obtain ⟨_, _, _, _, _, hkept, rfl⟩ := h
  exact map_of_keptOf (fun _ => rfl) hkept

theorem sameRewards_doTSH (vm : Vm) (tx : STTx) (strong : Bool) (tsh : List (AccountID × Bool))
    (alreadyProcessed : List AccountID) (view : View) (session : Session) :
    SameRewards view (doTSH vm tx strong tsh alreadyProcessed view session).2.1 := by
  refine doTSH_induction vm tx (R := fun s t => SameRewards s.1 t.1) (fun _ _ => rfl)
    (fun h h' acc => (h' acc).trans (h acc)) ?_ tsh alreadyProcessed view session
  intro view view₁ session tshAccountID hooks hchg
  obtain ⟨-, tshAcc, hacc, ⟨-, rfl⟩ | ⟨-, rfl⟩⟩ := chargeTSH_cases tx hchg
  · exact fun _ => rfl
  split
  · exact congrFun (View.map_setAccount hacc rfl)
  · exact fun _ => rfl

theorem sameRewards_postApplication
    (h : postApplication env tx aawMap result view = .ok (view', ids)) :
    SameRewards view view' := by
  unfold postApplication at h
  simp only [bind_eq_ok] at h
  obtain ⟨⟨view₁, ids₁⟩, hcal, ⟨_, view₂⟩, hrem, phase, hweak, h⟩ := h
  cases h
  have hbef := ((hookWrites_doHookCallback hcal).trans
    (hookWrites_removeEmissionEntry hrem)).sameRewards
  have hpaid := sameRewards_doTSH env.vm tx false (if tx.isPseudoTx then [] else
    stakeHolders env tx view₂ ++ env.additionalWeakTSH.map fun acc => (acc, false)) [] view₂ .start
  unfold weakPhase at hweak
  generalize doTSH env.vm tx false _ [] view₂ .start = weak at hweak hpaid
  obtain ⟨_, view₃, session⟩ := weak
  simp only [bind_eq_ok] at hweak
  obtain ⟨⟨stateResult, view₄, written⟩, hst, ⟨view₅, emissions⟩, hemit, hweak⟩ := hweak
  cases hweak
  have haft := ((hookWrites_finalizeHookState hst).trans
    (hookWrites_finalizeHookResults hemit)).sameRewards
  exact fun acc => (haft acc).trans ((hpaid acc).trans (hbef acc))

end

/-! ## The rewards of one account over the ledgers -/

/-- What happens to an account. -/
inductive RewardEvent where
  /-- A transaction leaves the account a balance, and later hooks another. -/
  | transaction (settled final : ℕ)
  /-- A `ttCLAIM_REWARD` of the account, likewise. -/
  | claim (isOptOut : Bool) (settled final : ℕ)
  /-- The ledger is closed. -/
  | close

/-- An account over the ledgers. -/
structure RewardState where
  lgrCur : ℕ
  sle : AccountRoot
  /-- The balances with which the ledgers before have ended. -/
  ended : ℕ → Int

namespace RewardState

section

variable (rules : Rules) (s : RewardState)

/-- The account root after the balance rewards and the hooks. -/
def settle (lgrCur : ℕ) (before : Int) (settled final : ℕ) (sle : AccountRoot) : AccountRoot :=
  { rewarded rules lgrCur before { sle with balance := settled } with balance := final }

/-- One event. -/
def step : RewardEvent → RewardState
  | .transaction settled final =>
    { s with sle := settle rules s.lgrCur s.sle.balance settled final s.sle }
  | .claim isOptOut settled final =>
    { s with
      sle := settle rules s.lgrCur s.sle.balance settled final
        (ClaimReward.resetCounters isOptOut s.lgrCur s.sle) }
  | .close =>
    { s with lgrCur := s.lgrCur + 1, ended := Function.update s.ended s.lgrCur s.sle.balance }

/-- One event after another. -/
def run (es : List RewardEvent) : RewardState :=
  es.foldl (step rules) s

end

variable {sle sle' : AccountRoot} {env : Env} {tx : STTx} {before view' : View} {drops : ℕ}
  {ended : ℕ → Int}

theorem rewardFields_rewarded_congr {rules : Rules} {lgrCur : ℕ} {before : Int}
    (hflds : rewardFields sle' = rewardFields sle) (hbal : sle'.balance = sle.balance) :
    rewardFields (rewarded rules lgrCur before sle')
      = rewardFields (rewarded rules lgrCur before sle) := by
  unfold rewardFields at hflds
  rw [Prod.mk.injEq, Prod.mk.injEq] at hflds
  obtain ⟨hfirst, hlast, hacc⟩ := hflds
  unfold rewarded accrue
  rw [hbal, hfirst, hlast, hacc]
  cases previousBalance before sle.balance with
  | none =>
    unfold rewardFields
    rw [hfirst, hlast, hacc]
  | some drops =>
    dsimp only
    unfold rewardFields
    repeat' split
    all_goals simp [*]

/-- **What an applied transaction does to an account's rewards**: the accumulator is brought up to
date if its settled changes move the balance. -/
theorem rewardFields_conclude {acc : AccountID} {sle₁ : AccountRoot}
    (hrew : settled.view.rules.enabled .featureBalanceRewards = true)
    (h240819 : settled.view.rules.enabled .fix240819 = true)
    (hmeta : MetaFor before settled.view (env.affectedRoots settled.view))
    (hbef : before.account acc = some sle) (hacc : settled.view.account acc = some sle')
    (hflds : rewardFields sle' = rewardFields sle₁) (hdro : sle'.balance = drops)
    (h : conclude env tx aawMap result settled = .ok (result', view', ids)) :
    (view'.account acc).map rewardFields = some (rewardFields
      (settle settled.view.rules settled.view.seq sle.balance drops final sle₁)) := by
  have hacco := account_rewards hrew h240819 hmeta hbef hacc
  unfold conclude at h
  simp only [bind_eq_ok] at h
  obtain ⟨⟨view₁, ids₁⟩, hpost, -, -, h⟩ := h
  cases h
  have hs : SameRewards (rewards env settled.view) view₁ := by
    split at hpost
    · exact sameRewards_postApplication hpost
    · cases hpost
      exact fun _ => rfl
  have hcon : rewardFields (rewarded settled.view.rules settled.view.seq sle.balance sle')
      = rewardFields (rewarded settled.view.rules settled.view.seq sle.balance
          { sle₁ with balance := (drops : Int) }) := rewardFields_rewarded_congr hflds hdro
  rw [hs acc, hacco, Option.map_some, hcon]
  rfl

/-- The whole units of a balance in drops. -/
def units (drops : Int) : ℕ := (drops / 1000000).toNat

/-- The accumulator is the sum of the whole units at the end of the ledgers from `sfRewardLgrFirst`
to before `sfRewardLgrLast`. -/
def Weighted (s : RewardState) : Prop :=
  ∀ first last accum, rewardFields s.sle = (some first, some last, some accum) →
    accum = ∑ lgr ∈ Finset.Ico first last, units (s.ended lgr)

/-- The event does not change the whole units without bringing the accumulator up to date, once a
ledger has passed: the transaction does not take the balance from below one unit to more, hooks do
not change the units of a balance that it leaves, and no number overflows. -/
def Timely (s : RewardState) : RewardEvent → Prop
  | .transaction settled final =>
    ∀ first last accum, rewardFields s.sle = (some first, some last, some accum) →
      last < s.lgrCur →
      accum + units s.sle.balance * (s.lgrCur - last) < 2 ^ 64 ∧
        (units s.sle.balance = 0 → units final = 0) ∧
        (s.sle.balance = settled → units final = units s.sle.balance)
  | .claim .. => True
  | .close => s.lgrCur + 1 < 2 ^ 32

def AllTimely (rules : Rules) (s : RewardState) : List RewardEvent → Prop
  | [] => True
  | e :: es => s.Timely e ∧ (s.step rules e).AllTimely rules es

section

variable {rules : Rules} {s : RewardState} {sle : AccountRoot} {lgrCur first last accum : ℕ}
  {drops : Int}

theorem accrue_of_same (h : rewardFields sle = (some first, some lgrCur, some accum)) :
    accrue rules lgrCur drops sle = sle := by
  unfold rewardFields at h
  obtain ⟨hfirst, hlast, hacc⟩ : _ ∧ _ ∧ _ := by simpa using h
  have hela : (lgrCur + 2 ^ 32 - lgrCur) % 2 ^ 32 = 0 := by
    rw [Nat.add_sub_cancel_left]
    exact Nat.mod_self _
  unfold accrue
  rw [hfirst, hlast, hacc]
  dsimp only
  rw [hela]
  split
  · rfl
  · rw [if_pos (.inl rfl)]

theorem accrue_of_missing
    (h : ∀ first last accum, rewardFields sle ≠ (some first, some last, some accum)) :
    accrue rules lgrCur drops sle = sle := by
  unfold accrue
  split
  next first last accum hfirst hlast hacc =>
    refine absurd ?_ (h first last accum)
    unfold rewardFields
    rw [hfirst, hlast, hacc]
  · rfl

theorem toNat_tdiv (hdro : 0 ≤ drops) (hfits : units drops < 2 ^ 64) :
    (drops.tdiv 1000000 % 2 ^ 64).toNat = units drops := by
  unfold units at hfits ⊢
  rw [Int.tdiv_eq_ediv_of_nonneg hdro, Int.emod_eq_of_lt]
  · exact Int.ediv_nonneg hdro (by decide)
  · omega

/-- A balance of a unit or more is accumulated, and one below is skipped. -/
theorem accrue_eq (h240911 : rules.enabled .fix240911 = true)
    (h : rewardFields sle = (some first, some last, some accum)) (hlast : last < lgrCur)
    (hlgr : lgrCur < 2 ^ 32) (hdro : 0 ≤ drops)
    (hfits : accum + units drops * (lgrCur - last) < 2 ^ 64) :
    accrue rules lgrCur drops sle =
      if units drops = 0 then sle
      else { sle with
        rewardAccumulator := some (accum + units drops * (lgrCur - last))
        rewardLgrLast := some lgrCur } := by
  unfold rewardFields at h
  obtain ⟨hfirst, hlas, hacc⟩ : _ ∧ _ ∧ _ := by simpa using h
  have hela : (lgrCur + 2 ^ 32 - last) % 2 ^ 32 = lgrCur - last := by
    omega
  have hpos : 1 ≤ lgrCur - last := by omega
  have huni : units drops < 2 ^ 64 := by
    have hle := Nat.mul_le_mul_left (units drops) hpos
    omega
  unfold accrue
  rw [hfirst, hlas, hacc]
  dsimp only
  rw [hela, toNat_tdiv hdro huni, Nat.mod_eq_of_lt hfits, h240911]
  split
  · rfl
  have hpas : ¬ (lgrCur - last = 0 ∨ lgrCur < lgrCur - last ∨
      (true = false ∧ last < lgrCur - last)) := by
    simp only [Bool.true_eq_false, false_and, or_false]
    omega
  rw [if_neg hpas, if_neg (by omega)]

/-! ## Over the ledgers -/

/-- The accumulator is up to date to `sfRewardLgrLast`, and the whole units are the same since. -/
structure Inv (s : RewardState) : Prop where
  balance : 0 ≤ s.sle.balance
  lgrCur : s.lgrCur < 2 ^ 32
  weighted : s.Weighted
  since : ∀ first last accum, rewardFields s.sle = (some first, some last, some accum) →
    first ≤ last ∧ last ≤ s.lgrCur ∧
      ∀ lgr, last ≤ lgr → lgr < s.lgrCur → units (s.ended lgr) = units s.sle.balance

theorem rewardFields_settle (rules : Rules) (lgrCur : ℕ) (before : Int) (settled final : ℕ)
    (sle : AccountRoot) :
    rewardFields (settle rules lgrCur before settled final sle)
      = rewardFields (rewarded rules lgrCur before { sle with balance := settled }) := rfl

theorem rewarded_of_eq {before : Int} (h : before = sle.balance) :
    rewarded rules lgrCur before sle = sle := by
  unfold rewarded previousBalance
  rw [if_pos h]

theorem rewarded_of_ne {before : Int} (h : before ≠ sle.balance) :
    rewarded rules lgrCur before sle = accrue rules lgrCur before sle := by
  unfold rewarded previousBalance
  rw [if_neg h]

/-- After a transaction the accumulator is up to date, or nothing happens and the units are those
before, unless no ledger has passed. -/
theorem transaction_cases (h240911 : rules.enabled .fix240911 = true) (h : s.Inv) {settled : ℕ}
    (htim : s.Timely (.transaction settled final))
    (hflds : rewardFields s.sle = (some first, some last, some accum)) :
    (rewardFields (settle rules s.lgrCur s.sle.balance settled final s.sle)
        = (some first, some s.lgrCur, some (accum + units s.sle.balance * (s.lgrCur - last)))) ∨
      (rewardFields (settle rules s.lgrCur s.sle.balance settled final s.sle)
        = (some first, some last, some accum) ∧
        (last < s.lgrCur → units final = units s.sle.balance)) := by
  rw [rewardFields_settle]
  by_cases hlast : last < s.lgrCur
  · obtain ⟨hfits, hzero, hs⟩ := htim first last accum hflds hlast
    by_cases hmov : s.sle.balance = settled
    · rw [rewarded_of_eq (by exact hmov)]
      exact .inr ⟨hflds, fun _ => hs hmov⟩
    rw [rewarded_of_ne (by exact hmov)]
    have hset : rewardFields { s.sle with balance := (settled : Int) }
        = (some first, some last, some accum) := hflds
    rw [accrue_eq h240911 hset hlast h.lgrCur h.balance hfits]
    split
    next huni =>
      exact .inr ⟨hflds, fun _ => (hzero huni).trans huni.symm⟩
    refine .inl ?_
    unfold rewardFields at hflds ⊢
    rw [Prod.mk.injEq] at hflds
    simp [hflds.1]
  · have hle := (h.since first last accum hflds).2.1
    have hlas : last = s.lgrCur := by omega
    subst hlas
    refine .inr ⟨?_, fun hlt => absurd hlt hlast⟩
    by_cases hmov : s.sle.balance = settled
    · rw [rewarded_of_eq (by exact hmov)]
      exact hflds
    · rw [rewarded_of_ne (by exact hmov), accrue_of_same (by exact hflds)]
      exact hflds

theorem Inv.sum_eq (h : s.Inv) (hflds : rewardFields s.sle = (some first, some last, some accum)) :
    accum + units s.sle.balance * (s.lgrCur - last)
      = ∑ lgr ∈ Finset.Ico first s.lgrCur, units (s.ended lgr) := by
  obtain ⟨hfirst, hlast, hsin⟩ := h.since first last accum hflds
  have hrest : ∑ lgr ∈ Finset.Ico last s.lgrCur, units (s.ended lgr)
      = units s.sle.balance * (s.lgrCur - last) := by
    rw [Finset.sum_congr rfl fun lgr hlgr => hsin lgr (Finset.mem_Ico.mp hlgr).1
      (Finset.mem_Ico.mp hlgr).2, Finset.sum_const, Nat.card_Ico, smul_eq_mul, mul_comm]
  rw [← Finset.sum_Ico_consecutive _ hfirst hlast, hrest, ← h.weighted first last accum hflds]

theorem Inv.transaction (h240911 : rules.enabled .fix240911 = true) (h : s.Inv) {settled : ℕ}
    (htim : s.Timely (.transaction settled final)) :
    (s.step rules (.transaction settled final)).Inv := by
  have hpar : ∀ first last accum,
      rewardFields (settle rules s.lgrCur s.sle.balance settled final s.sle)
        = (some first, some last, some accum) →
      accum = ∑ lgr ∈ Finset.Ico first last, units (s.ended lgr) ∧ first ≤ last ∧ last ≤ s.lgrCur ∧
        ∀ lgr, last ≤ lgr → lgr < s.lgrCur → units (s.ended lgr) = units final := by
    intro first' last' accum' hflds'
    by_cases hpre : ∃ first last accum, rewardFields s.sle = (some first, some last, some accum)
    · obtain ⟨first, last, accum, hflds⟩ := hpre
      obtain ⟨hfirst, hlast, hsin⟩ := h.since first last accum hflds
      rcases transaction_cases h240911 h htim hflds with hupd | ⟨hkept, huni⟩
      · cases hupd.symm.trans hflds'
        exact ⟨h.sum_eq hflds, hfirst.trans hlast, le_rfl,
          fun lgr hle hlt => absurd hlt (Nat.not_lt.mpr hle)⟩
      · cases hkept.symm.trans hflds'
        refine ⟨h.weighted _ _ _ hflds, hfirst, hlast, fun lgr hle hlt => ?_⟩
        rw [hsin lgr hle hlt, huni (hle.trans_lt hlt)]
    · -- without the fields there is nothing to bring up to date
      have hmis : ∀ first last accum, rewardFields { s.sle with balance := (settled : Int) }
          ≠ (some first, some last, some accum) :=
        fun first last accum hflds => hpre ⟨first, last, accum, hflds⟩
      rw [rewardFields_settle] at hflds'
      by_cases hmov : s.sle.balance = settled
      · rw [rewarded_of_eq (by exact hmov)] at hflds'
        exact absurd hflds' (hmis _ _ _)
      · rw [rewarded_of_ne (by exact hmov), accrue_of_missing hmis] at hflds'
        exact absurd hflds' (hmis _ _ _)
  refine ⟨Int.natCast_nonneg final, h.lgrCur, ?_, ?_⟩
  · intro first last accum hflds
    exact (hpar first last accum hflds).1
  · intro first last accum hflds
    exact (hpar first last accum hflds).2

theorem Inv.claim (h : s.Inv) (isOptOut : Bool) (settled final : ℕ) :
    (s.step rules (.claim isOptOut settled final)).Inv := by
  have hflds : rewardFields (s.step rules (.claim isOptOut settled final)).sle
      = if isOptOut then (none, none, none) else (some s.lgrCur, some s.lgrCur, some 0) := by
    show rewardFields (settle rules s.lgrCur s.sle.balance settled final _) = _
    rw [rewardFields_settle]
    by_cases hmov : s.sle.balance = settled
    · rw [rewarded_of_eq (by exact hmov)]
      cases isOptOut <;> rfl
    rw [rewarded_of_ne (by exact hmov)]
    cases isOptOut with
    | false =>
      rw [accrue_of_same (by exact rfl)]
      rfl
    | true =>
      rw [accrue_of_missing fun first last accum hflds => by cases hflds]
      rfl
  refine ⟨Int.natCast_nonneg final, h.lgrCur, ?_, ?_⟩
  · intro first last accum hflds'
    rw [hflds] at hflds'
    cases isOptOut with
    | false =>
      cases hflds'
      simp
    | true => cases hflds'
  · intro first last accum hflds'
    rw [hflds] at hflds'
    cases isOptOut with
    | false =>
      cases hflds'
      exact ⟨le_rfl, le_rfl, fun lgr hle hlt => absurd hlt (Nat.not_lt.mpr hle)⟩
    | true => cases hflds'

theorem Inv.close (h : s.Inv) (hlgr : s.lgrCur + 1 < 2 ^ 32) : (s.step rules .close).Inv := by
  refine ⟨h.balance, hlgr, ?_, ?_⟩
  · intro first last accum hflds
    obtain ⟨-, hlast, -⟩ := h.since first last accum hflds
    rw [h.weighted first last accum hflds]
    refine Finset.sum_congr rfl fun lgr hmem => ?_
    have hne : lgr ≠ s.lgrCur := ((Finset.mem_Ico.mp hmem).2.trans_le hlast).ne
    show _ = units (update s.ended s.lgrCur s.sle.balance lgr)
    rw [update_of_ne hne]
  · intro first last accum hflds
    obtain ⟨hfirst, hlast, hsin⟩ := h.since first last accum hflds
    refine ⟨hfirst, Nat.le_succ_of_le hlast, fun lgr hle hlt => ?_⟩
    show units (update s.ended s.lgrCur s.sle.balance lgr) = units s.sle.balance
    by_cases hcur : lgr = s.lgrCur
    · rw [hcur, update_self]
    · rw [update_of_ne hcur]
      exact hsin lgr hle (lt_of_le_of_ne (Nat.lt_succ_iff.mp hlt) hcur)

/-- **One event** that is timely keeps the accumulator right. -/
theorem Inv.step (h240911 : rules.enabled .fix240911 = true) (h : s.Inv) {e : RewardEvent}
    (htim : s.Timely e) : (s.step rules e).Inv := by
  cases e with
  | transaction settled final => exact h.transaction h240911 htim
  | claim isOptOut settled final => exact h.claim isOptOut settled final
  | close => exact h.close htim

/-- **Every history** of timely events keeps the accumulator right. -/
theorem Inv.run (h240911 : rules.enabled .fix240911 = true) (h : s.Inv) {es : List RewardEvent}
    (htim : s.AllTimely rules es) : (s.run rules es).Inv := by
  induction es generalizing s with
  | nil => exact h
  | cons e es ih => exact ih (h.step h240911 htim.1) htim.2

end

/-- **Balance rewards**: in every history of timely events, from before an account opts in, the
accumulator is the sum over the ledgers since `sfRewardLgrFirst` of the whole units at the end of
the ledger before. -/
theorem weighted_of_timely (rules : Rules) (h240911 : rules.enabled .fix240911 = true)
    (s : RewardState) (hfields : rewardFields s.sle = (none, none, none))
    (hbalance : 0 ≤ s.sle.balance) (hlgr : s.lgrCur < 2 ^ 32) (es : List RewardEvent)
    (htimely : s.AllTimely rules es) : (s.run rules es).Weighted := by
  have hstart : s.Inv := by
    refine ⟨hbalance, hlgr, ?_, ?_⟩
    all_goals
      intro first last accum hpresent
      cases hfields.symm.trans hpresent
  exact (hstart.run h240911 htimely).weighted

/-- An account before it opts in, with a balance in drops, in the tenth ledger. -/
def unrewarded (balance : Int) : RewardState := ⟨10, { balance, sequence := 1 }, fun _ => balance⟩

/-- An account with five units pays two of them after two ledgers. -/
theorem weighted_of_timely_payment :
    ((unrewarded 5000000).run ⟨fun _ => true⟩ [.claim false 5000000 5000000, .close, .close,
      .transaction 3000000 3000000]).sle.rewardAccumulator = some 10 ∧
    ((unrewarded 5000000).run ⟨fun _ => true⟩ [.claim false 5000000 5000000, .close, .close,
      .transaction 3000000 3000000]).Weighted := by
  refine ⟨by decide, weighted_of_timely _ rfl _ rfl (by decide) (by decide) _ ?_⟩
  refine ⟨trivial, show 10 + 1 < 2 ^ 32 by decide, show 11 + 1 < 2 ^ 32 by decide, ?_, trivial⟩
  intro first last accum hfields _
  obtain ⟨rfl, rfl, rfl⟩ : 10 = first ∧ 10 = last ∧ 0 = accum := by
    cases hfields
    exact ⟨rfl, rfl, rfl⟩
  decide

/-- An account with half a unit receives a hundred, and these count for all three ledgers; and units
that hooks were paid are missing before. -/
theorem late_balance_counted :
    ¬ ((unrewarded 500000).run ⟨fun _ => true⟩ [.claim false 500000 500000, .close, .close,
      .transaction 100000000 100000000, .close, .transaction 99000000 99000000]).Weighted ∧
    ¬ ((unrewarded 2000000).run ⟨fun _ => true⟩ [.claim false 2000000 2000000, .close, .close,
      .transaction 2000000 1000000, .close, .transaction 900000 900000]).Weighted := by
  constructor
  · intro h
    have hsum := h 10 13 300 (by decide)
    revert hsum
    decide
  · intro h
    have hsum := h 10 13 3 (by decide)
    revert hsum
    decide

end RewardState

end Xahau.Transactor
