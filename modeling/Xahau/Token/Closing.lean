import Xahau.Ledger.Linked
import Xahau.Token.Locked

/-! # Closing a channel

A closed channel is removed from the ledger and from two directories, and its source owns one object
less. This needs a line of the source that can give back what the channel has not paid, even if the
source issues the tokens itself, in contrast to creating or funding the channel. -/

namespace Xahau.Token

open Checked Directory Earmarks Function Holds LockFields

/-! ## Directories -/

/-- A key is on one page of a directory. -/
structure Filed (dir : Directory) (page : Nat) (key : UInt256) : Prop where
  chained : dir.Chained
  holds_iff : ∀ page', dir.Holds page' key ↔ page' = page

variable {account id : AccountID} {issue : Issue} {page : Nat} {line : RippleState}
  {amount : STAmount}

theorem filed_dirAdd {dir dir' : Directory} {key : UInt256} {capped : Bool}
    (hcha : dir.Chained) (hroom : dir.lastPage + 1 < 0x10000000000000000)
    (hfre : ∀ page, ¬ dir.Holds page key)
    (h : dir.dirAdd capped false key = .ok (some (page, dir'))) : Filed dir' page key where
  chained := by
    rcases hcha.dirAdd (fun hh => absurd hh (hfre _)) capped false hroom with
      ⟨hn, -⟩ | ⟨page', dir'', hok, hcha', -⟩
    · exact nomatch h.symm.trans hn
    · obtain ⟨-, rfl⟩ := Prod.mk.inj (Option.some.inj (Except.ok.inj (h.symm.trans hok)))
      exact hcha'
  holds_iff page' := by
    rw [holds_dirAdd h]
    constructor
    · rintro (⟨hpage, -⟩ | hh)
      · exact hpage
      · exact absurd hh (hfre page')
    · exact fun hpage => .inl ⟨hpage, rfl⟩

theorem Filed.dirRemove {view : View} {key : UInt256} (h : Filed (view.ownerDir id) page key) :
    ∃ dir, view.dirRemove id page key true = .ok (view.setOwnerDir id dir) ∧
      ∀ page', ¬ dir.Holds page' key := by
  have hh := (h.holds_iff page).mpr rfl
  obtain ⟨dir, hok, -⟩ := h.chained.dirRemove hh true
  refine ⟨dir, ?_, fun page' hh' => ?_⟩
  · unfold View.dirRemove
    rw [hok]
  obtain ⟨hself, hoths⟩ := holds_dirRemove hok
  by_cases hpage : page' = page
  · obtain ⟨node, hnode, -⟩ := hh
    rcases keys_dirRemove hok with ⟨hfal, -⟩ | ⟨-, -, hkeys⟩
    · cases hfal
    rw [holds_iff_mem_keys, hkeys, hpage, update_self, keys_eq hnode] at hh'
    exact (h.chained.nodup hnode).not_mem_erase hh'
  · rw [hoths page' key fun heq => hpage (congrArg Prod.fst heq)] at hh'
    exact hpage ((h.holds_iff page').mp hh')

/-! ## Lines -/

/-- **A line can give back an amount** locked for one account, which has tokens: it is locked and
counted, the rest is not more than the tokens, and no sum loses precision. -/
structure Releases (env : Env) (line : RippleState) (high : Bool) (amount : ℚ) : Prop where
  funded : 0 < inTerms high line.balance
  locked : amount ≤ line.lock.balance high
  backed : line.lock.balance high - amount ≤ inTerms high line.balance
  addable : env.isAddable (inTerms high line.balance) (-amount) = true ∧
    env.isAddable (line.lock.balance high) (-amount) = true ∧
    env.isAddable (line.lock.balance high - amount) (inTerms high line.balance) = true
  counted : 0 < line.lock.count.toNat

theorem not_countOverflows_decrement (n : UInt32) :
    ¬ countOverflows (-1) n (n + .ofInt (-1)) = true ↔ 0 < n.toNat := by
  constructor
  · exact fun h => (count_decremented h).2
  intro hpos hover
  have hadd : (n + .ofInt (-1)).toNat = (n.toNat + 4294967295) % 2 ^ 32 :=
    UInt32.toNat_add n (.ofInt (-1))
  have hn := n.toNat_lt
  rcases of_decide_eq_true hover with ⟨h, -⟩ | ⟨-, hlt⟩ | ⟨h, -⟩
  · exact absurd h (by decide)
  · rw [UInt32.lt_iff_toNat_lt] at hlt
    omega
  · exact absurd h (by decide)

/-- **When unlocking an amount succeeds**. -/
theorem adjustLocked_succeeds_iff {env : Env} {high : Bool} {amount : ℚ} :
    Succeeds (adjustLocked env line high (-amount) (-1)) ↔
      0 ≤ inTerms high line.balance ∧ (amount = 0 ∨ Releases env line high amount) := by
  unfold adjustLocked
  rw [succeeds_failIf_bind, not_lt]
  refine and_congr_right fun hbal => ?_
  by_cases hzero : amount = 0
  · rw [if_pos (neg_eq_zero.mpr hzero)]
    exact iff_of_true succeeds_ok (.inl hzero)
  rw [if_neg (neg_eq_zero.not.mpr hzero), or_iff_right hzero]
  iterate 5 rw [succeeds_failIf_bind]
  rw [not_countOverflows_decrement]
  constructor
  · rintro ⟨hfun, hbac, hloc, hadd, hcou, -⟩
    obtain ⟨h₁, h₂, h₃⟩ : _ ∧ _ ∧ _ := by
      rw [not_or, not_or] at hadd
      exact hadd
    refine ⟨lt_of_le_of_ne hbal (Ne.symm hfun), ?_, ?_, ⟨?_, ?_, ?_⟩, hcou⟩
    · exact sub_nonneg.mp (sub_eq_add_neg (line.lock.balance high) amount ▸ not_lt.mp hloc)
    · exact sub_eq_add_neg (line.lock.balance high) amount ▸ not_lt.mp hbac
    · exact Bool.eq_true_of_not_eq_false h₁
    · exact Bool.eq_true_of_not_eq_false h₂
    · rw [sub_eq_add_neg]
      exact Bool.eq_true_of_not_eq_false h₃
  · rintro ⟨hfun, hloc, hbac, ⟨h₁, h₂, h₃⟩, hcou⟩
    rw [sub_eq_add_neg] at hbac h₃
    refine ⟨hfun.ne', not_lt.mpr hbac, not_lt.mpr ?_, ?_, hcou, succeeds_ok⟩
    · rw [← sub_eq_add_neg]
      exact sub_nonneg.mpr hloc
    rintro (h | h | h)
    · exact absurd (h₁.symm.trans h) (by decide)
    · exact absurd (h₂.symm.trans h) (by decide)
    · exact absurd (h₃.symm.trans h) (by decide)

theorem lineKey_party (account issuer : AccountID) (currency : Currency) :
    (if decide ((lineKey account issuer currency).low = issuer) then
      (lineKey account issuer currency).high else (lineKey account issuer currency).low) = account := by
  unfold lineKey
  split
  · by_cases heq : account = issuer <;> simp [heq]
  · simp

/-! ## Closing -/

/-- **A channel that stands**: its source exists, both directories have it, and it has paid at most
what it has. -/
structure Standing (view : View) (key : UInt256) (slep : PayChan) : Prop where
  source : ∃ sle, view.account slep.account = some sle
  filed : Filed (view.ownerDir slep.account) slep.ownerNode key
  filedDestination : ∀ page, slep.destinationNode = some page →
    view.rules.enabled .fixPayChanRecipientOwnerDir = true ∧
      Filed (view.ownerDir slep.destination) page key
  distinct : slep.account ≠ slep.destination
  comparable : STAmount.areComparable slep.amount slep.balance = true
  paid : slep.balance.value ≤ slep.amount.value
  tokens : slep.amount.issue ≠ none →
    view.rules.enabled .featurePaychanAndEscrowForTokens = true

/-- No freeze, authorisation or missing issuer bars the source from its tokens. -/
def NoBar (view : View) (slep : PayChan) : Prop :=
  ∀ issue, slep.amount.issue = some issue →
    trustTransferAllowed view [slep.account] issue = .ok ⟨⟩

/-- **The channel is closed**: it is gone, from the directories too, and its source owns one object
less. -/
structure Closed (view : View) (key : UInt256) (slep : PayChan) (view' : View) : Prop where
  payChan : view'.payChan key = none
  ownerDir : ∀ page, ¬ (view'.ownerDir slep.account).Holds page key
  destinationDir : ∀ page, slep.destinationNode = some page →
    ∀ page', ¬ (view'.ownerDir slep.destination).Holds page' key
  ownerCount : ∀ sle, view.account slep.account = some sle →
    ∃ sle', view'.account slep.account = some sle' ∧
      sle'.ownerCount.toNat = sle.ownerCount.toNat - 1

/-- **The line of the source covers the channel**: if it has tokens, there is a line with the issuer
on which the source owes nothing and which can give back what is left. -/
def Closable (env : Env) (view : View) (slep : PayChan) : Prop :=
  ∀ issue, slep.amount.issue = some issue →
    ∃ line, view.line (lineKey slep.account issue.account issue.currency) = some line ∧
      0 ≤ inTerms (decide ((lineKey slep.account issue.account issue.currency).low = issue.account))
        line.balance ∧
      (slep.balance.value = slep.amount.value ∨
        Releases env line
          (decide ((lineKey slep.account issue.account issue.currency).low = issue.account))
          (slep.amount.value - slep.balance.value))

variable {env : Env} {view view' : View} {key : UInt256} {slep : PayChan}

theorem trustAdjustLockedBalance_succeeds_iff (env : Env)
    (amount : ℚ) (htok : view.rules.enabled .featurePaychanAndEscrowForTokens = true)
    (hbar : trustTransferAllowed view [account] issue = .ok ⟨⟩) :
    Succeeds (trustAdjustLockedBalance env view (lineKey account issue.account issue.currency) issue
        (-amount) (-1)) ↔
      ∃ line, view.line (lineKey account issue.account issue.currency) = some line ∧
        0 ≤ inTerms (decide ((lineKey account issue.account issue.currency).low = issue.account))
          line.balance ∧
        (amount = 0 ∨ Releases env line
          (decide ((lineKey account issue.account issue.currency).low = issue.account)) amount) := by
  unfold trustAdjustLockedBalance
  rw [succeeds_failIf_bind, htok]
  cases hline : view.line (lineKey account issue.account issue.currency) with
  | none =>
    refine iff_of_false (fun ⟨_, _, h⟩ => nomatch h) ?_
    rintro ⟨line, hsome, -⟩
    exact nomatch hsome
  | some line =>
    dsimp only
    rw [lineKey_party, hbar, ok_bind, adjustLocked_succeeds_iff]
    constructor
    · rintro ⟨-, h⟩
      exact ⟨line, rfl, h⟩
    rintro ⟨line', hline', h⟩
    cases hline'
    exact ⟨nofun, h⟩

theorem canUnlockRemaining_succeeds_iff (h : Standing view key slep)
    (hbar : NoBar view slep) (hval : amount.value = slep.amount.value - slep.balance.value)
    (hissue : amount.issue = slep.amount.issue) :
    Succeeds (canUnlockRemaining env view slep.account amount) ↔ Closable env view slep := by
  unfold canUnlockRemaining Closable
  rw [← hissue]
  cases hamo : amount.issue with
  | none => exact iff_of_true succeeds_ok nofun
  | some issue =>
    have hslep : slep.amount.issue = some issue := hissue.symm.trans hamo
    have htok := h.tokens (by rw [hslep]; exact nofun)
    have hemp : amount.value = 0 ↔ slep.balance.value = slep.amount.value := by
      rw [hval, sub_eq_zero]
      exact eq_comm
    have hunl := trustAdjustLockedBalance_succeeds_iff env amount.value htok
      (hbar issue hslep)
    rw [hemp, hval] at hunl
    rw [succeeds_failIf_bind, succeeds_bind, htok]
    constructor
    · rintro ⟨-, line', hline', -⟩ issue' hissue'
      cases hissue'
      rw [hval] at hline'
      exact hunl.mp ⟨line', hline'⟩
    · intro hcov
      obtain ⟨line', hline'⟩ := hunl.mpr (hcov issue rfl)
      rw [hval]
      exact ⟨nofun, line', hline', succeeds_ok⟩

theorem Standing.remaining (h : Standing view key slep) :
    ∃ amount, slep.remaining = .ok amount ∧
      amount.value = slep.amount.value - slep.balance.value ∧ amount.issue = slep.amount.issue := by
  have hche : ¬ STAmount.areComparable slep.amount slep.balance = false := by
    rw [h.comparable]
    decide
  unfold PayChan.remaining STAmount.sub STAmount.check
  rw [failIf_of_not hche, ok_bind]
  exact ⟨_, rfl, rfl, rfl⟩

theorem Standing.removeFromDirs (h : Standing view key slep) :
    ∃ dirs, Token.removeFromDirs view slep.account slep.destination slep.ownerNode
        (if view.rules.enabled .fixPayChanRecipientOwnerDir then slep.destinationNode else none) key
        = .ok { view with ownerDir := dirs } ∧
      (∀ page, ¬ (dirs slep.account).Holds page key) ∧
      ∀ page, slep.destinationNode = some page →
        ∀ page', ¬ (dirs slep.destination).Holds page' key := by
  obtain ⟨dir, hrem, hgone⟩ := h.filed.dirRemove
  unfold Token.removeFromDirs
  rw [hrem, ok_bind]
  cases hnode : slep.destinationNode with
  | none =>
    rw [ite_self]
    refine ⟨update view.ownerDir slep.account dir, rfl, ?_, nofun⟩
    rw [update_self]
    exact hgone
  | some page =>
    obtain ⟨hena, hfil⟩ := h.filedDestination page hnode
    rw [if_pos hena]
    -- the directory of the destination is another one
    have hfil' : Filed ((view.setOwnerDir slep.account dir).ownerDir slep.destination) page key := by
      unfold View.setOwnerDir
      dsimp only
      rw [update_of_ne h.distinct.symm]
      exact hfil
    obtain ⟨dir', hrem', hgone'⟩ := hfil'.dirRemove
    refine ⟨update (update view.ownerDir slep.account dir) slep.destination dir', hrem', ?_, ?_⟩
    · rw [update_of_ne h.distinct, update_self]
      exact hgone
    intro _ _
    rw [update_self]
    exact hgone'

theorem unlockRemaining_of_succeeds {src : AccountID} {sle : AccountRoot}
    (hcan : Succeeds (canUnlockRemaining env view src amount)) (hsrc : view.account src = some sle) :
    ∃ view', unlockRemaining env view src amount = .ok view' ∧ view'.ownerDir = view.ownerDir ∧
      ∃ sle', view'.account src = some sle' ∧ sle'.ownerCount = sle.ownerCount := by
  unfold canUnlockRemaining at hcan
  unfold unlockRemaining
  cases hissue : amount.issue with
  | none =>
    unfold View.getAccount
    rw [hsrc]
    exact ⟨_, rfl, rfl, _, update_self _ _ _, rfl⟩
  | some issue =>
    rw [hissue] at hcan
    dsimp only
    obtain ⟨-, hcan⟩ := succeeds_failIf_bind.mp hcan
    obtain ⟨line', hline', -⟩ := succeeds_bind.mp hcan
    rw [hline', ok_bind]
    exact ⟨_, rfl, rfl, sle, hsrc, rfl⟩

theorem confineOwnerCount_decrement (n : UInt32) : (confineOwnerCount n (-1)).toNat = n.toNat - 1 := by
  unfold confineOwnerCount
  have hadd : (n + .ofInt (-1)).toNat = (n.toNat + 4294967295) % 2 ^ 32 :=
    UInt32.toNat_add n (.ofInt (-1))
  have hn := n.toNat_lt
  rw [if_neg (by decide)]
  split
  next hlt =>
    rw [UInt32.lt_iff_toNat_lt] at hlt
    show 0 = n.toNat - 1
    omega
  next hlt =>
    rw [UInt32.lt_iff_toNat_lt] at hlt
    omega

/-! ## Channels that stand -/

theorem lockFunds_frame (h : lockFunds env view account amount = .ok view') :
    view'.rules = view.rules ∧ view'.ownerDir = view.ownerDir ∧
      ∀ id, (∃ sle, view.account id = some sle) → ∃ sle, view'.account id = some sle := by
  unfold lockFunds at h
  split at h
  · obtain ⟨sle, -, h⟩ := bind_eq_ok.mp h
    cases h
    refine ⟨rfl, rfl, fun id hid => ?_⟩
    by_cases hself : id = account
    · rw [hself]
      exact ⟨_, update_self _ _ _⟩
    · obtain ⟨sle', hsle'⟩ := hid
      exact ⟨sle', (update_of_ne hself _ _).trans hsle'⟩
  · replace h := of_check h
    split at h
    · cases h
      exact ⟨rfl, rfl, fun _ hid => hid⟩
    obtain ⟨line', -, h⟩ := bind_eq_ok.mp h
    cases h
    exact ⟨rfl, rfl, fun _ hid => hid⟩

/-- A directory into which a new key can be put. -/
structure Open (dir : Directory) (key : UInt256) : Prop where
  chained : dir.Chained
  room : dir.lastPage + 1 < 0x10000000000000000
  fresh : ∀ page, ¬ dir.Holds page key

theorem Open.dirInsert (h : Open (view.ownerDir id) key)
    (hins : view.dirInsert id key = .ok (page, view')) :
    ∃ dir, view' = view.setOwnerDir id dir ∧ Filed dir page key := by
  unfold View.dirInsert at hins
  split at hins
  · exact nomatch hins
  · exact nomatch hins
  next page' dir hadd =>
    cases hins
    exact ⟨dir, rfl, filed_dirAdd h.chained h.room h.fresh hadd⟩

/-- A new channel is filed with the source, and with the destination if wanted. -/
theorem filed_dirInserts {destination : AccountID} {ownerNode : Nat} {wanted : Bool}
    {destinationNode : Option Nat} {view₁ view₂ : View} (hne : account ≠ destination)
    (hopen : ∀ id, Open (view.ownerDir id) key)
    (hins : view.dirInsert account key = .ok (ownerNode, view₁))
    (hins' : view₁.dirInsertIf wanted destination key = .ok (destinationNode, view₂)) :
    ∃ dirs, view₂ = { view with ownerDir := dirs } ∧ Filed (dirs account) ownerNode key ∧
      ∀ page, destinationNode = some page → wanted = true ∧ Filed (dirs destination) page key := by
  obtain ⟨dir, rfl, hfil⟩ := (hopen account).dirInsert hins
  unfold View.dirInsertIf at hins'
  split at hins'
  next hwan =>
    obtain ⟨⟨page, view₃⟩, hins'', hins'⟩ := bind_eq_ok.mp hins'
    -- the directory of the destination is another one
    have hopen' : Open ((view.setOwnerDir account dir).ownerDir destination) key := by
      unfold View.setOwnerDir
      dsimp only
      rw [update_of_ne hne.symm]
      exact hopen destination
    obtain ⟨dir', rfl, hfil'⟩ := hopen'.dirInsert hins''
    cases hins'
    refine ⟨update (update view.ownerDir account dir) destination dir', rfl, ?_, ?_⟩
    · rw [update_of_ne hne, update_self]
      exact hfil
    intro page' hpage
    cases hpage
    rw [update_self]
    exact ⟨hwan, hfil'⟩
  next =>
    cases hins'
    refine ⟨update view.ownerDir account dir, rfl, ?_, nofun⟩
    rw [update_self]
    exact hfil

theorem PayChanCreate.standing {tx : PayChanCreate}
    (hrun : (Tx.payChanCreate tx).run env view = .ok view')
    (hopen : ∀ id, Open (view.ownerDir id) (env.payChanKeylet tx.account tx.destination tx.seq)) :
    ∃ slep, view'.payChan (env.payChanKeylet tx.account tx.destination tx.seq) = some slep ∧
      Standing view' (env.payChanKeylet tx.account tx.destination tx.seq) slep := by
  obtain ⟨_, hpre, hrun⟩ := bind_eq_ok.mp hrun
  obtain ⟨_, -, htx⟩ := bind_eq_ok.mp hrun
  obtain ⟨htok, hpre⟩ := of_failIf hpre
  replace hpre := of_check hpre
  obtain ⟨hpos, hpre⟩ := of_failIf hpre
  obtain ⟨_, hdist, -⟩ := bind_eq_ok.mp hpre
  replace hdist : tx.account ≠ tx.destination := failIf_eq_ok.mp hdist
  obtain ⟨sle, hsle, htx⟩ := bind_eq_ok.mp htx
  replace htx := of_check htx
  obtain ⟨⟨ownerNode, view₁⟩, hins, htx⟩ := bind_eq_ok.mp htx
  obtain ⟨⟨destinationNode, view₂⟩, hins', htx⟩ := bind_eq_ok.mp htx
  obtain ⟨view₃, hlock, htx⟩ := bind_eq_ok.mp htx
  have hview' : adjustOwnerCount view₃ tx.account 1 = view' := Except.ok.inj htx
  have hrul₁ : view₁.rules = view.rules := by
    obtain ⟨dir, rfl⟩ := View.dirInsert_eq_ok hins
    rfl
  obtain ⟨dirs, rfl, hfil, hfil'⟩ := filed_dirInserts hdist hopen hins hins'
  obtain ⟨hrul, hdirs, haccs⟩ := lockFunds_frame hlock
  obtain ⟨sle', hsle'⟩ := haccs tx.account ⟨sle, View.getAccount_eq_ok hsle⟩
  have hpayChan := (lockFunds_objects hlock).2
  unfold adjustOwnerCount at hview'
  rw [hsle'] at hview'
  subst hview'
  refine ⟨_, (congrFun hpayChan _).trans (update_self _ _ _), ?_⟩
  constructor
  · exact ⟨_, update_self _ _ _⟩
  · show Filed (view₃.ownerDir tx.account) ownerNode _
    rw [hdirs]
    exact hfil
  · show ∀ page, destinationNode = some page →
      view₃.rules.enabled .fixPayChanRecipientOwnerDir = true ∧
        Filed (view₃.ownerDir tx.destination) page _
    rw [hdirs, hrul]
    rw [hrul₁] at hfil'
    exact hfil'
  · exact hdist
  · exact decide_eq_true rfl
  · exact (not_le.mp hpos).le
  · intro htoke
    show view₃.rules.enabled .featurePaychanAndEscrowForTokens = true
    rw [hrul]
    by_contra hdis
    exact htok
      ⟨decide_eq_false htoke, Bool.eq_false_of_not_eq_true hdis⟩

/-- **A channel whose tokens are locked can be closed** by a source that does not issue them, if its
line has all that is locked and no sum loses precision. -/
theorem closable_of_sound (hsta : Standing view key slep)
    (hslep : view.payChan key = some slep) (hissue : slep.amount.issue = some issue)
    (hsou : Sound slep.account issue view.holds)
    (hline : view.line (lineKey slep.account issue.account issue.currency) = some line)
    (hbac : line.lock.balance (holderHigh slep.account issue) ≤
      inTerms (holderHigh slep.account issue) line.balance)
    (hadd : ∀ x y, env.isAddable x y = true) : Closable env view slep := by
  have hheld : view.holds.held slep.account issue (.inr key) =
      slep.amount.value - slep.balance.value := by
    have hslep' : view.holds.payChan key = some slep := hslep
    rw [held, hslep']
    exact if_pos ⟨rfl, hissue⟩
  have hloc : view.holds.locked slep.account issue =
      line.lock.balance (holderHigh slep.account issue) :=
    congrArg (fun lock => LockFields.balance lock _) (View.lock_of_line hline)
  have hle := hsou.covered.le_pool (.inr key)
  have hpaid := hsta.paid
  rw [hheld, hloc] at hle
  intro issue' hissue'
  cases hissue.symm.trans hissue'
  refine ⟨line, hline, ?_, ?_⟩
  · show 0 ≤ inTerms (holderHigh slep.account issue) line.balance
    linarith
  by_cases hdra : slep.balance.value = slep.amount.value
  · exact .inl hdra
  have hpos : 0 < slep.amount.value - slep.balance.value := sub_pos.mpr (lt_of_le_of_ne hpaid hdra)
  refine .inr ⟨?_, hle, ?_, ⟨hadd _ _, hadd _ _, hadd _ _⟩, ?_⟩
  · exact lt_of_lt_of_le hpos (hle.trans hbac)
  · show line.lock.balance (holderHigh slep.account issue) - _ ≤
      inTerms (holderHigh slep.account issue) line.balance
    linarith
  · have hne : view.holds.held slep.account issue (.inr key) ≠ 0 := hheld ▸ hpos.ne'
    have hcount := hsou.covered.count_pos hne
    rw [← View.lock_of_line hline]
    exact hcount

/-! ## The theorem -/

/-- **When a channel can be closed**: one that stands, without a bar, is closed iff it is native or
the line of the source covers it. -/
theorem closeChannel_closed_iff (env : Env) {view : View} {key : UInt256} {slep : PayChan}
    (hstanding : Standing view key slep) (hbar : NoBar view slep) :
    (∃ view', closeChannel env slep key view = .ok view' ∧ Closed view key slep view') ↔
      Closable env view slep := by
  obtain ⟨amount, hamount, hvalue, hissue⟩ := hstanding.remaining
  rw [← canUnlockRemaining_succeeds_iff hstanding hbar hvalue hissue]
  unfold closeChannel
  rw [hamount, ok_bind]
  constructor
  · rintro ⟨view', hclose, -⟩
    obtain ⟨u, hcan, -⟩ := bind_eq_ok.mp hclose
    exact ⟨u, hcan⟩
  intro hcan
  obtain ⟨dirs, hdirs, hgone, hgone'⟩ := hstanding.removeFromDirs
  obtain ⟨sle, hsle⟩ := hstanding.source
  -- the line and the accounts are not touched by the removal from the directories
  have hcan' : Succeeds (canUnlockRemaining env { view with ownerDir := dirs } slep.account amount) :=
    hcan
  obtain ⟨view₂, hunlock, hdirs₂, sle', hsle', hcount⟩ := unlockRemaining_of_succeeds hcan' hsle
  obtain ⟨u, hcan⟩ := hcan
  have haccount : View.getAccount { view with ownerDir := dirs } slep.account .tefINTERNAL =
      .ok sle := by
    unfold View.getAccount
    rw [hsle]
  refine ⟨(adjustOwnerCount view₂ slep.account (-1)).setPayChan key none, ?_, ?_⟩
  · rw [hcan, ok_bind]
    dsimp only
    rw [hdirs, ok_bind, haccount, ok_bind, hunlock, ok_bind]
  unfold adjustOwnerCount
  rw [hsle']
  refine ⟨update_self _ _ _, ?_, ?_, ?_⟩
  · show ∀ page, ¬ (view₂.ownerDir slep.account).Holds page key
    rw [hdirs₂]
    exact hgone
  · show ∀ page, slep.destinationNode = some page →
      ∀ page', ¬ (view₂.ownerDir slep.destination).Holds page' key
    rw [hdirs₂]
    exact hgone'
  · intro sle₀ hsle₀
    cases hsle.symm.trans hsle₀
    refine ⟨_, update_self _ _ _, ?_⟩
    rw [confineOwnerCount_decrement, hcount]

theorem sampleLedger_open (id : AccountID) (key : UInt256) : Open (sampleLedger.ownerDir id) key where
  chained := chained_empty
  room := show 0 + 1 < 0x10000000000000000 by decide
  fresh _ := not_holds_empty

/-- The ledger after the holder has opened a channel. -/
def sampleCreated : View := (Tx.payChanCreate sampleCreate).apply sampleEnv sampleLedger

/-- The holder can close the channel. -/
theorem sampleCreated_closed : ∃ slep, sampleCreated.payChan (.ofByte 2) = some slep ∧
    ∃ view', closeChannel sampleEnv slep (.ofByte 2) sampleCreated = .ok view' ∧
      Closed sampleCreated (.ofByte 2) slep view' := by
  have hrun : (Tx.payChanCreate sampleCreate).run sampleEnv sampleLedger = .ok sampleCreated := by
    with_unfolding_all rfl
  obtain ⟨slep, hslep, hstanding⟩ := PayChanCreate.standing hrun fun id => sampleLedger_open id _
  obtain ⟨slep', hslep', haccount, hissue⟩ : ∃ slep ∈ sampleCreated.payChan (.ofByte 2),
      slep.account = sampleHolder ∧ slep.amount.issue = some sampleIssue := by decide +kernel
  obtain rfl : slep = slep' := Option.some.inj (hslep.symm.trans hslep')
  have hbar : NoBar sampleCreated slep := by
    intro issue hissue'
    cases hissue.symm.trans hissue'
    rw [haccount]
    with_unfolding_all rfl
  have hsound : Sound slep.account sampleIssue sampleCreated.holds := by
    rw [haccount]
    exact sound_tx (by decide) (fun hreverse => absurd hreverse.1 (by decide))
      sampleLedger_fresh.sound
  obtain ⟨line, hline, hbacked⟩ :
      ∃ line ∈ sampleCreated.line (lineKey sampleHolder sampleIssuer sampleCurrency),
        line.lock.balance (holderHigh sampleHolder sampleIssue) ≤
          inTerms (holderHigh sampleHolder sampleIssue) line.balance := by decide +kernel
  refine ⟨slep, hslep, (closeChannel_closed_iff sampleEnv hstanding hbar).mpr ?_⟩
  exact closable_of_sound hstanding hslep hissue hsound (haccount ▸ hline) (haccount ▸ hbacked)
    fun _ _ => rfl

/-- The issuer opens a channel with 10 tokens. -/
def sampleIssued : PayChanCreate := { sampleCreate with account := sampleIssuer }

/-- The ledger after the issuer has opened a channel. -/
def sampleIssuedLedger : View := (Tx.payChanCreate sampleIssued).apply sampleEnv sampleLedger

/-- **A channel of the issuer cannot be closed**: closing it asks for a line of the issuer with
itself. -/
theorem issuer_channel_stuck : ∃ slep, sampleIssuedLedger.payChan (.ofByte 2) = some slep ∧
    slep.account = sampleIssuer ∧ Standing sampleIssuedLedger (.ofByte 2) slep ∧
    NoBar sampleIssuedLedger slep ∧
    closeChannel sampleEnv slep (.ofByte 2) sampleIssuedLedger = .error .tecNO_LINE := by
  have hrun : (Tx.payChanCreate sampleIssued).run sampleEnv sampleLedger =
      .ok sampleIssuedLedger := by
    with_unfolding_all rfl
  obtain ⟨slep, hslep, hstanding⟩ := PayChanCreate.standing hrun fun id => sampleLedger_open id _
  obtain ⟨slep', hslep', haccount, hissue, hfails⟩ :
      ∃ slep ∈ sampleIssuedLedger.payChan (.ofByte 2), slep.account = sampleIssuer ∧
        slep.amount.issue = some sampleIssue ∧
        ∃ e, closeChannel sampleEnv slep (.ofByte 2) sampleIssuedLedger = .error e ∧
          e = .tecNO_LINE := by
    decide +kernel
  obtain rfl : slep = slep' := Option.some.inj (hslep.symm.trans hslep')
  refine ⟨slep, hslep, haccount, hstanding, ?_, ?_⟩
  · intro issue hissue'
    cases hissue.symm.trans hissue'
    rw [haccount]
    with_unfolding_all rfl
  · obtain ⟨_, hclose, rfl⟩ := hfails
    exact hclose

end Xahau.Token
