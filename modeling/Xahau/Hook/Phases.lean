import Xahau.Hook.StakeHolders
import Xahau.Hook.WeakPhase

/-! # Strong and weak stakeholders of one transaction

Hooks are not to be run twice for a transaction unless they ask for it. Within one phase an account
is taken up only once. But for the second phase the stakeholders are determined anew, when the
transaction has changed or removed the objects that name them. -/

namespace Xahau.Hook

open FlagList List Option

variable {b : Bool} {execution : Execution} {session : Session} {ut : URIToken}

section

variable (view : View) (tx : STTx) (strong : Bool) (tsh : List (AccountID × Bool)) (acc : AccountID)

/-- The loop of `doTSH` takes up an account: its first entry is of the phase. -/
def TakenUp : Prop :=
  acc ≠ tx.account ∧ first acc tsh = some strong

/-- The loop takes up the account, which has hooks that fire, and pays if weak. -/
def RunsTSH : Prop :=
  TakenUp tx strong tsh acc ∧ chargeTSH view tx acc strong ≠ none

end

section

variable {vm : Vm} {tx : STTx} {strong : Bool} {view view' before after : View} {acc : AccountID}
  {hooks : List HookObj}

theorem chargeTSH_of_ne {tshAccountID : AccountID} {canRollback : Bool}
    (h : chargeTSH view tx tshAccountID canRollback = some (hooks, view')) (hne : acc ≠ tshAccountID)
    (b : Bool) : chargeTSH view' tx acc b = none ↔ chargeTSH view tx acc b = none := by
  have hview : ∃ account drops, view' = { view with account, drops } ∧
      account acc = view.account acc := by
    obtain ⟨-, tshAcc, -, ⟨-, rfl⟩ | ⟨-, rfl⟩⟩ := chargeTSH_cases tx h
    · exact ⟨_, _, rfl, rfl⟩
    split
    · exact ⟨_, _, rfl, Function.update_of_ne hne ..⟩
    · exact ⟨_, _, rfl, rfl⟩
  obtain ⟨account, drops, rfl, hacc⟩ := hview
  unfold chargeTSH
  dsimp only
  rw [hacc]
  split
  · have hfee : ∀ hooks, calculateHookChainFee { view with account, drops } tx hooks (!b)
        = calculateHookChainFee view tx hooks (!b) := fun _ => rfl
    rw [hfee]
    repeat' split
    all_goals simp
  · rfl

end

/-! ## Stakeholders before and after -/

section

variable (escrowKey : AccountID → Nat → UInt256)

section

variable (tx : STTx) (closes : Bool) (additionalWeakTSH : List AccountID) (before : View)

/-- What a transaction leaves of the objects that name stakeholders. A channel may be closed. -/
def ObjectsAfter (after : View) : Prop :=
  match stakeCase tx.txnType with
  | .remit => ∀ id ∈ tx.uriTokenIDs, ∃ ut dst, before.uriToken id = some ut ∧
      ut.owner = tx.account ∧ tx.destination = some dst ∧
      after.uriToken id = some { ut with owner := dst, destination := none }
  | .uriTokenBurn => after.uriToken tx.uriTokenID = none
  | .uriTokenBuy => ∃ ut, before.uriToken tx.uriTokenID = some ut ∧
      after.uriToken tx.uriTokenID = some { ut with owner := tx.account, destination := none }
  | .uriTokenCancelSellOffer => ∃ ut, before.uriToken tx.uriTokenID = some ut ∧
      after.uriToken tx.uriTokenID = some { ut with destination := none }
  | .uriTokenCreateSellOffer => ∃ ut, before.uriToken tx.uriTokenID = some ut ∧
      ut.owner = tx.account ∧
      after.uriToken tx.uriTokenID = some { ut with destination := tx.destination }
  | .nfTokenBurn => ∀ nid ∈ tx.nfTokenID, after.findToken (tx.owner.getD tx.account) nid = false
  | .nfTokenCreateOffer => after.findToken = before.findToken
  | .nfTokenAcceptOffer =>
    getNFTOffer after tx.nfTokenBuyOffer = none ∧ getNFTOffer after tx.nfTokenSellOffer = none
  | .nfTokenCancelOffer => ∀ id ∈ tx.nfTokenOffers, getNFTOffer after id = none
  | .escrowFinish | .escrowCancel => findEscrow escrowKey tx after = none
  | .payChan =>
    if closes then tx.channel.bind after.payChan = none
    else
      (tx.channel.bind after.payChan).map (fun chan => (chan.account, chan.destination))
        = (tx.channel.bind before.payChan).map fun chan => (chan.account, chan.destination)
  | .check => tx.checkID.bind after.check = none
  | .imported | .uriTokenMint | .issuer | .regularKeySet | .depositPreauth | .twoParty | .trustSet
  | .signerListSet | .genesisMint | .none => True

/-- A strong stakeholder who is a weak one afterwards: the issuer who sells a token that is not
burnable, and whoever the transactor marks as weak and the object no longer names. -/
def Demoted (acc : AccountID) : Prop :=
  acc ≠ tx.account ∧
    match stakeCase tx.txnType with
    | .uriTokenBuy => ∃ ut, before.uriToken tx.uriTokenID = some ut ∧ acc = ut.owner ∧
        if ut.issuer = ut.owner then ut.burnable = false else acc ∈ additionalWeakTSH
    | .uriTokenBurn | .nfTokenBurn | .nfTokenAcceptOffer | .escrowFinish | .escrowCancel | .check =>
      (acc, true) ∈ nominations escrowKey tx before ∧ acc ∈ additionalWeakTSH
    | .payChan => closes = true ∧
        (acc, true) ∈ nominations escrowKey tx before ∧ acc ∈ additionalWeakTSH
    | _ => False

/-- The stakeholders for the second phase. -/
def weakTSH (view : View) : List (AccountID × Bool) :=
  getTransactionalStakeHolders escrowKey tx view ++ additionalWeakTSH.map fun acc => (acc, false)

end

variable {escrowKey} {tx : STTx} {closes : Bool} {before after view : View} {acc : AccountID}
  {additionalWeakTSH : List AccountID}

section

variable (hhooks : view.rules.enabled .featureHooks = true)

include hhooks

theorem first_getTransactionalStakeHolders (hacc : acc ≠ tx.account) :
    first acc (getTransactionalStakeHolders escrowKey tx view) =
      if (acc, true) ∈ nominations escrowKey tx view then some true
      else if (acc, false) ∈ nominations escrowKey tx view then some false else none := by
  unfold getTransactionalStakeHolders
  rw [if_pos hhooks, first_gather]
  simp only [mem_filter, decide_eq_true_eq, ne_eq, hacc, not_false_eq_true, and_true]

theorem takenUp_strong :
    TakenUp tx true (getTransactionalStakeHolders escrowKey tx view) acc ↔
      acc ≠ tx.account ∧ (acc, true) ∈ nominations escrowKey tx view := by
  refine and_congr_right fun hacc => ?_
  rw [first_getTransactionalStakeHolders hhooks hacc]
  split
  · simp [*]
  · split <;> simp [*]

theorem takenUp_weak :
    TakenUp tx false (weakTSH escrowKey tx additionalWeakTSH view) acc ↔
      acc ≠ tx.account ∧ (acc, true) ∉ nominations escrowKey tx view ∧
        ((acc, false) ∈ nominations escrowKey tx view ∨ acc ∈ additionalWeakTSH) := by
  refine and_congr_right fun hacc => ?_
  rw [weakTSH, first_append, first_getTransactionalStakeHolders hhooks hacc, first_map]
  split
  · simp [*]
  · split <;> simp [*]

end

/-- Named as strong before, and taken up as weak afterwards. -/
def NamedTwice (escrowKey : AccountID → Nat → UInt256) (tx : STTx)
    (additionalWeakTSH : List AccountID) (before after : View) (acc : AccountID) : Prop :=
  (acc, true) ∈ nominations escrowKey tx before ∧ (acc, true) ∉ nominations escrowKey tx after ∧
    ((acc, false) ∈ nominations escrowKey tx after ∨ acc ∈ additionalWeakTSH)

theorem not_namedTwice_of_same (h : ∀ b,
      (acc, b) ∈ nominations escrowKey tx after ↔ (acc, b) ∈ nominations escrowKey tx before) :
    ¬ NamedTwice escrowKey tx additionalWeakTSH before after acc :=
  fun ⟨hbef, haft, _⟩ => haft ((h true).mpr hbef)

theorem namedTwice_of_gone (h : nominations escrowKey tx after = []) :
    NamedTwice escrowKey tx additionalWeakTSH before after acc ↔
      (acc, true) ∈ nominations escrowKey tx before ∧ acc ∈ additionalWeakTSH := by
  unfold NamedTwice
  rw [h]
  simp only [not_mem_nil, not_false_eq_true, true_and, false_or]

theorem mem_remitStakes :
    (acc, b) ∈ remitStakes tx ut ↔ (ut.issuer ≠ ut.owner ∧ tx.destination ≠ some ut.issuer) ∧
      acc = ut.issuer ∧ b = ut.burnable := by
  unfold remitStakes
  split
  next hnam =>
    rw [mem_singleton, Prod.mk.injEq]
    exact (and_iff_right hnam).symm
  next hnot =>
    exact ⟨nofun, fun hnam => absurd hnam.1 hnot⟩

theorem mem_nominations_remit (hcase : stakeCase tx.txnType = .remit)
    (h : ObjectsAfter escrowKey tx closes before after) (hacc : acc ≠ tx.account) (b : Bool) :
    (acc, b) ∈ nominations escrowKey tx after ↔ (acc, b) ∈ nominations escrowKey tx before := by
  simp only [ObjectsAfter, hcase] at h
  simp only [nominations, hcase, mem_append, mem_flatMap]
  refine or_congr_right (exists_congr fun id => and_congr_right fun hid => ?_)
  obtain ⟨ut, dst, hbef, hown, hdst, haft⟩ := h id hid
  rw [hbef, haft]
  simp only [mem_toList, Option.some.injEq, exists_eq_left', mem_remitStakes]
  refine and_congr_left fun hissr => and_congr_left fun hdest => ?_
  -- the issuer is neither the old owner nor the new one
  refine iff_of_true ?_ ?_
  · rintro rfl
    exact hdest hdst
  · rw [hown, ← hissr.1]
    exact hacc

theorem mem_issuerStakes :
    (acc, b) ∈ issuerStakes ut ↔ ut.issuer ≠ ut.owner ∧ acc = ut.issuer ∧ b = ut.burnable := by
  unfold issuerStakes
  split
  next hne =>
    rw [mem_singleton, Prod.mk.injEq]
    exact (and_iff_right hne).symm
  next heq =>
    exact ⟨nofun, fun hnam => absurd hnam.1 heq⟩

theorem mem_buyStakes (hacc : acc ≠ tx.account) :
    (acc, b) ∈ buyStakes tx ut ↔ (acc = ut.owner ∧ b = true) ∨
      (ut.issuer ≠ ut.owner ∧ acc = ut.issuer ∧ b = ut.burnable) := by
  unfold buyStakes
  rw [mem_append, mem_issuerStakes]
  refine or_congr_left ?_
  split
  · rw [mem_singleton, Prod.mk.injEq]
  rename_i hself
  rw [ne_eq, not_not] at hself
  refine ⟨nofun, fun hnam => ?_⟩
  exact absurd (hnam.1.trans hself) hacc

/-- The purchase of a token demotes its owner, if it is not burnable and from its issuer, or the
owner is marked. -/
theorem namedTwice_buy (hcase : stakeCase tx.txnType = .uriTokenBuy)
    (hbef : before.uriToken tx.uriTokenID = some ut)
    (haft : after.uriToken tx.uriTokenID = some { ut with owner := tx.account, destination := none })
    (hacc : acc ≠ tx.account) :
    NamedTwice escrowKey tx additionalWeakTSH before after acc ↔ acc = ut.owner ∧
      if ut.issuer = ut.owner then ut.burnable = false else acc ∈ additionalWeakTSH := by
  have hmem : ∀ (view : View) (ut : URIToken) b, view.uriToken tx.uriTokenID = some ut →
      ((acc, b) ∈ nominations escrowKey tx view ↔ (acc = ut.owner ∧ b = true) ∨
        (ut.issuer ≠ ut.owner ∧ acc = ut.issuer ∧ b = ut.burnable)) := by
    intro view ut b hut
    simp only [nominations, hcase, hut, toList_some, flatMap_singleton,
      mem_buyStakes hacc]
  unfold NamedTwice
  rw [hmem _ _ _ hbef, hmem _ _ _ haft, hmem _ _ _ haft]
  by_cases hown : acc = ut.owner
  · subst hown
    split
    next hissr =>
      cases hbur : ut.burnable <;> simp [hissr, hacc]
    next hissr =>
      simp [Ne.symm hissr, hacc]
  · -- the issuer has the same stake afterwards
    refine iff_of_false ?_ fun h => hown h.1
    rintro ⟨hstr | ⟨-, heq, hbur⟩, hnot, -⟩
    · exact hown hstr.1
    refine hnot (.inr ⟨?_, heq, hbur⟩)
    rw [← heq]
    exact hacc

theorem flatMap_parties (chan : Option PayChan) :
    chan.toList.flatMap (fun chan => [(chan.account, true), (chan.destination, false)]) =
      (chan.map fun chan => (chan.account, chan.destination)).toList.flatMap
        fun parties => [(parties.1, true), (parties.2, false)] := by
  cases chan with
  | none => rfl
  | some chan => rfl

/-- **Who is named twice**, for every type of transaction. -/
theorem namedTwice_iff (hrul : after.rules = before.rules)
    (h : ObjectsAfter escrowKey tx closes before after) (hacc : acc ≠ tx.account) :
    NamedTwice escrowKey tx additionalWeakTSH before after acc ↔
      Demoted escrowKey tx closes additionalWeakTSH before acc := by
  unfold Demoted
  rw [and_iff_right hacc]
  have haft := h
  cases hcase : stakeCase tx.txnType <;> simp only [ObjectsAfter, hcase] at h
  case remit => exact iff_of_false (not_namedTwice_of_same (mem_nominations_remit hcase haft hacc)) id
  case uriTokenBuy =>
    obtain ⟨ut, hbef, haft⟩ := h
    rw [namedTwice_buy hcase hbef haft hacc]
    simp only [hbef, Option.some.injEq, exists_eq_left']
  case uriTokenBurn =>
    refine namedTwice_of_gone ?_
    simp only [nominations, hcase, h, toList_none, flatMap_nil]
  case uriTokenCancelSellOffer =>
    refine iff_of_false (fun htwi => ?_) id
    have hstr := htwi.1
    simp only [nominations, hcase] at hstr
    split at hstr <;> simp at hstr
  case uriTokenCreateSellOffer =>
    refine iff_of_false (not_namedTwice_of_same fun b => ?_) id
    obtain ⟨ut, hbef, -, haft⟩ := h
    simp only [nominations, hcase, hbef, haft, issuerStakes, toList_some,
      flatMap_singleton]
  case nfTokenBurn =>
    refine namedTwice_of_gone ?_
    simp only [nominations, hcase, flatMap_eq_nil_iff, mem_toList]
    intro nid hnid
    rw [h nid hnid]
    rfl
  case nfTokenCreateOffer =>
    refine iff_of_false (not_namedTwice_of_same fun b => ?_) id
    simp only [nominations, hcase, h]
  case nfTokenAcceptOffer =>
    refine namedTwice_of_gone ?_
    simp only [nominations, hcase, h.1, h.2]
    rfl
  case nfTokenCancelOffer =>
    refine iff_of_false (fun htwi => ?_) id
    have hstr := htwi.1
    simp only [nominations, hcase] at hstr
    simp at hstr
  case escrowFinish | escrowCancel | check =>
    refine namedTwice_of_gone ?_
    simp only [nominations, hcase, h, toList_none, flatMap_nil]
  case payChan =>
    cases closes with
    | true =>
      rw [if_pos rfl] at h
      rw [and_iff_right rfl]
      refine namedTwice_of_gone ?_
      simp only [nominations, hcase, h, toList_none, flatMap_nil]
    | false =>
      rw [if_neg Bool.false_ne_true] at h
      refine iff_of_false (not_namedTwice_of_same fun b => ?_) fun hclo => nomatch hclo.1
      simp only [nominations, hcase, flatMap_parties, h]
  case imported | uriTokenMint | issuer | regularKeySet | depositPreauth | twoParty | trustSet |
      signerListSet | genesisMint | none =>
    -- only the fields of the transaction matter
    refine iff_of_false (not_namedTwice_of_same fun b => ?_) id
    simp only [nominations, hcase, hrul]

/-- The objects are as they were: the transaction is refused or reset. -/
structure SameObjects (before after : View) : Prop where
  account : ∀ acc, (after.account acc).isSome = (before.account acc).isSome
  escrow : after.escrow = before.escrow
  payChan : after.payChan = before.payChan
  check : after.check = before.check
  uriToken : after.uriToken = before.uriToken
  nftOffer : after.nftOffer = before.nftOffer
  findToken : after.findToken = before.findToken

theorem SameObjects.nominations_eq (h : SameObjects before after)
    (hrul : after.rules = before.rules) :
    nominations escrowKey tx after = nominations escrowKey tx before := by
  have hburn : burnStakes tx after = burnStakes tx before := by
    funext ut
    unfold burnStakes
    rw [hrul, h.account, h.account]
  have hesc : findEscrow escrowKey tx after = findEscrow escrowKey tx before := by
    unfold findEscrow
    rw [hrul, h.escrow]
  have hoff : getNFTOffer after = getNFTOffer before := by
    funext id
    unfold getNFTOffer
    rw [h.nftOffer]
  unfold nominations
  rw [hburn, hesc, hoff, hrul, h.uriToken, h.findToken, h.payChan, h.check]

section

variable (escrowKey : AccountID → Nat → UInt256) (tx : STTx)

/-- What a transaction leaves of the objects, whether it succeeds or not. -/
def LedgerAfter (succeeds closes : Bool) (before after : View) : Prop :=
  after.rules = before.rules ∧
    if succeeds then ObjectsAfter escrowKey tx closes before after else SameObjects before after

/-- No account taken up by `doTSH` before the transaction is run by it afterwards. -/
def StrongNotWeak (additionalWeakTSH : List AccountID) (before after : View) : Prop :=
  ∀ acc, TakenUp tx true (getTransactionalStakeHolders escrowKey tx before) acc →
    ¬ RunsTSH after tx false (weakTSH escrowKey tx additionalWeakTSH after) acc

end

/-- **No hook chain is run both strongly and weakly** iff no strong stakeholder is demoted who can
be run weakly. -/
theorem strongNotWeak_iff (escrowKey : AccountID → Nat → UInt256) (tx : STTx)
    (succeeds closes : Bool) (additionalWeakTSH : List AccountID) (before after : View)
    (hledger : LedgerAfter escrowKey tx succeeds closes before after) :
    StrongNotWeak escrowKey tx additionalWeakTSH before after ↔
      (before.rules.enabled .featureHooks = true → succeeds = true → ∀ acc,
        Demoted escrowKey tx closes additionalWeakTSH before acc →
          chargeTSH after tx acc false = none) := by
  obtain ⟨hrules, hobjects⟩ := hledger
  by_cases hhooks : before.rules.enabled .featureHooks = true
  · have hhooks' : after.rules.enabled .featureHooks = true := by rw [hrules, hhooks]
    unfold StrongNotWeak RunsTSH
    simp only [takenUp_strong hhooks, takenUp_weak hhooks']
    cases succeeds with
    | false =>
      rw [if_neg Bool.false_ne_true] at hobjects
      refine iff_of_true ?_ fun _ hfalse => nomatch hfalse
      rintro acc ⟨-, hstrong⟩ ⟨⟨-, hnot, -⟩, -⟩
      rw [hobjects.nominations_eq hrules] at hnot
      exact hnot hstrong
    | true =>
      rw [if_pos rfl] at hobjects
      simp only [hhooks, true_implies]
      refine forall_congr' fun acc => ?_
      by_cases hacc : acc = tx.account
      · refine iff_of_true (fun hstrong => absurd hacc hstrong.1) fun hdemoted => ?_
        exact absurd hacc hdemoted.1
      rw [← namedTwice_iff hrules hobjects hacc]
      unfold NamedTwice
      simp only [ne_eq, hacc, not_false_eq_true, true_and, not_and, not_not, and_imp]
  · refine iff_of_true ?_ fun henabled => absurd henabled hhooks
    rintro acc ⟨-, hfirst⟩
    unfold getTransactionalStakeHolders at hfirst
    rw [if_neg hhooks] at hfirst
    cases hfirst

end

/-! ## A token that its issuer sells -/

/-- The stranger buys a token. -/
def tokenPurchase : STTx :=
  { strangerPayment with txnType := ttURITokenBuy, uriTokenID := .ofByte 9 }

/-- The token is owned by the account, and was issued by the owner of the hook. -/
def tokenLedger (burnable : Bool) (holder : AccountID) : View :=
  { emptyView collectRegistry with
    uriToken := fun id =>
      if id = .ofByte 9 then some { owner := holder, issuer := owner, burnable } else none }

def acceptVm : Vm := fun invocation view stateMap =>
  { rollbackVm [] [] invocation view stateMap with exitType := .accept }

theorem ledgerAfter_tokenPurchase (burnable : Bool) :
    LedgerAfter (fun _ _ => .zero) tokenPurchase true false (tokenLedger burnable owner)
      (tokenLedger burnable tokenPurchase.account) :=
  ⟨rfl, _, rfl, rfl⟩

/-- The issuer of a burnable token that is sold is strong before and after. -/
theorem burnable_strongNotWeak :
    StrongNotWeak (fun _ _ => .zero) tokenPurchase [] (tokenLedger true owner)
      (tokenLedger true tokenPurchase.account) := by
  refine (strongNotWeak_iff _ _ true false _ _ _ (ledgerAfter_tokenPurchase true)).mpr ?_
  rintro - - acc ⟨-, ut, hut, -, hdemoted⟩
  cases hut
  cases hdemoted

/-- **The issuer who sells a token runs twice**: strongly as its owner, then weakly as its issuer.
-/
theorem issuer_runs_twice :
    let before := tokenLedger false owner
    let after := tokenLedger false tokenPurchase.account
    let strong := (doTSH acceptVm tokenPurchase true
      (getTransactionalStakeHolders (fun _ _ => .zero) tokenPurchase before) [] before .start).2.2
    let weak := (doTSH acceptVm tokenPurchase false
      (weakTSH (fun _ _ => .zero) tokenPurchase [] after) [] after .start).2.2
    LedgerAfter (fun _ _ => .zero) tokenPurchase true false before after ∧
      strong.executions.map (fun execution => execution.result.account) = [owner] ∧
      (strong.executions.map fun execution => execution.result.executeAgainAsWeak) = [false] ∧
      weak.executions.map (fun execution => execution.result.account) = [owner] ∧
      ¬ StrongNotWeak (fun _ _ => .zero) tokenPurchase [] before after := by
  refine ⟨ledgerAfter_tokenPurchase false, by decide +kernel, by decide +kernel, by decide +kernel, ?_⟩
  intro hnot
  refine hnot owner ⟨by decide, by decide +kernel⟩ ⟨⟨by decide, by decide +kernel⟩, ?_⟩
  rw [← isSome_iff_ne_none]
  decide +kernel

end Xahau.Hook
