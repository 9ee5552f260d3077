import Xahau.Hook.Emission
import Xahau.Import.Apply

/-! # Minting, the genesis distribution and deleted accounts (`GenesisMint.cpp`, `Change.cpp`, `DeleteAccount.cpp`)

Beside imports, a genesis mint and the activation of the governance amendment change the total of
drops in the header. Accounts are erased by one transactor only, which first checks that the account
may go. -/

namespace Xahau.Transactor

open Hook Checked

namespace GenesisMint

/-- `GenesisMint::preclaim`. -/
def preclaim (view : View) : Ter :=
  if view.rules.enabled .featureHooks = false then .temDISABLED
  else if view.rules.enabled .featureXahauGenesis = false then .temDISABLED
  else .tesSUCCESS

/-- The governance flags and marks are set as applicable. -/
def govern (flags marks : Option UInt256) (sle : AccountRoot) : AccountRoot :=
  { sle with
    governanceFlags := flags.or sle.governanceFlags
    governanceMarks := marks.or sle.governanceMarks }

/-- The account that a mint creates. -/
def newAccount (view : View) (balance : Int) : AccountRoot where
  balance
  sequence := view.parentCloseTime

/-- One destination, before `fixXahauV1`. A new account without an amount gets the starting bonus,
as with an import. -/
def mintTo (dest : GenesisMint) (view : View) (dropsAdded : Int) : Except Ter (View × Int) :=
  let update (sle : AccountRoot) : View :=
    view.setAccount dest.destination (govern dest.governanceFlags dest.governanceMarks sle)
  match view.account dest.destination, dest.amount with
  | _, some .issued => .error .tecINTERNAL
  | none, some (.xrp amt) => .ok (update (newAccount view amt), dropsAdded + amt)
  | none, none =>
    let initialXrp := Import.computeStartingBonus view
    .ok (update (newAccount view initialXrp), dropsAdded + initialXrp)
  | some sle, some (.xrp amt) =>
    if sle.balance + amt ≤ sle.balance then .error .tecINTERNAL
    else .ok (update { sle with balance := sle.balance + amt }, dropsAdded + amt)
  | some sle, none => .ok (update sle, dropsAdded)

/-- The loop over the destinations, before `fixXahauV1`. -/
def mintAll : List GenesisMint → View → Int → Except Ter (View × Int)
  | [], view, dropsAdded => .ok (view, dropsAdded)
  | dest :: dests, view, dropsAdded => do
    let (view, dropsAdded) ← mintTo dest view dropsAdded
    mintAll dests view dropsAdded

/-- What an account is to be credited with, and its governance flags and marks. -/
structure Mint where
  amount : Int
  governanceFlags : Option UInt256
  governanceMarks : Option UInt256

/-- The sum loop: entries of an account accumulate, with its first flags and marks. -/
def sumMints : List GenesisMint → (AList fun _ : AccountID => Mint) → Int →
    Except Ter ((AList fun _ : AccountID => Mint) × Int)
  | [], mints, dropsAdded => .ok (mints, dropsAdded)
  | dest :: dests, mints, dropsAdded => do
    failIf (dest.amount = some .issued) .tecINTERNAL
    let toCredit := (dest.amount.map Amount.drops).getD 0
    let mint ← (match mints.lookup dest.destination with
      | none => .ok ⟨toCredit, dest.governanceFlags, dest.governanceMarks⟩
      | some mint => do
        -- detect overflow
        failIf (mint.amount + toCredit < mint.amount) .tecINTERNAL
        .ok { mint with amount := mint.amount + toCredit } : Except Ter Mint)
    sumMints dests (mints.insert dest.destination mint) (dropsAdded + toCredit)

/-- The action loop. -/
def creditMints : List (AccountID × Mint) → View → Except Ter View
  | [], view => .ok view
  | (id, mint) :: mints, view => do
    let sle ← (match view.account id with
      | none => .ok (newAccount view mint.amount)
      | some sle => do
        failIf (0 < mint.amount ∧ sle.balance + mint.amount ≤ sle.balance) .tecINTERNAL
        .ok (if 0 < mint.amount then { sle with balance := sle.balance + mint.amount } else sle)
        : Except Ter AccountRoot)
    creditMints mints
      (view.setAccount id (govern mint.governanceFlags mint.governanceMarks sle))

/-- The ledger header is updated. -/
def addDrops (view : View) (dropsAdded : Int) : View :=
  if 0 < dropsAdded then { view with drops := view.drops + dropsAdded } else view

/-- `GenesisMint::doApply`. As of `fixXahauV1`, duplicate accounts are allowed. -/
def doApply (tx : STTx) (view : View) : Except Ter View :=
  if view.rules.enabled .fixXahauV1 = false then do
    let (view, dropsAdded) ← mintAll tx.genesisMints view 0
    failIf (dropsAdded < 0 ∨ dropsAdded + view.drops < view.drops) .tecINTERNAL
    .ok (addDrops view dropsAdded)
  else do
    let (mints, dropsAdded) ← sumMints tx.genesisMints ∅ 0
    -- check for ledger header overflow
    failIf (dropsAdded < 0 ∨ dropsAdded + view.drops < view.drops) .tecINTERNAL
    let view ← creditMints ((sortedEntries mints).map fun entry => (entry.1, entry.2)) view
    .ok (addDrops view dropsAdded)

end GenesisMint

namespace Change

/-- What the activation of `featureXahauGenesis` depends on. -/
structure Genesis where
  /-- The identifier of the amendment, the hash of its name. -/
  amendment : UInt256
  /-- What `Change::applyAmendment` returns, and whether it enables the amendment. -/
  result : Ter
  enables : Bool
  /-- The network is one whose governance is configured. -/
  isConfigured : Bool
  /-- The genesis account. -/
  account : AccountID
  /-- The accounts of the distribution with their amounts. -/
  distribution : List (AccountID × Int)
  /-- The accounts of the tables of the second layer. -/
  tables : List AccountID
  /-- The hooks of the genesis account and the tables, if they can be installed. -/
  installHooks : View → Option HookRegistry

/-- `GenesisAmount`, in drops. -/
def genesisAmount : Int := 1000000 * Import.dropsPerXrp

/-- The account cannot sign transactions any more, and owns some more objects. -/
def blackhole (objects : Nat) (sle : AccountRoot) : AccountRoot :=
  { sle with
    regularKey := some (.ofByte 1)
    disableMaster := true
    tshCollect := false
    passwordSpent := false
    requireDestTag := false
    depositAuth := false
    disallowIncomingRemit := false
    uriTokenIssuer := false
    ownerCount := sle.ownerCount + objects }

/-- One account of the distribution: its balance is set, even if it exists. -/
def mint (state : View × Int) (entry : AccountID × Int) : View × Int :=
  let (sb, destroyedXRP) := state
  match sb.account entry.1 with
  | none =>
    (sb.setAccount entry.1 { balance := entry.2, sequence := sb.parentCloseTime },
      destroyedXRP - entry.2)
  | some sle =>
    (sb.setAccount entry.1 { sle with balance := entry.2 }, destroyedXRP - (entry.2 - sle.balance))

section

variable (genesis : Genesis) (view : View)

/-- The genesis funds are burned, and the distribution is minted. The number is what is burned, less
the distributions. -/
def distribute (sle : AccountRoot) (view : View) : View × Int :=
  genesis.distribution.foldl mint
    (view.setAccount genesis.account { sle with balance := genesisAmount },
      sle.balance - genesisAmount)

/-- The genesis account and the tables are blackholed. -/
def blackholeAll (sb : View) : View :=
  genesis.tables.foldl (View.modifyAccount (blackhole 1))
    (View.modifyAccount (blackhole 2) sb genesis.account)

/-- `Change::activateXahauGenesis`. -/
def activateXahauGenesis : View :=
  if genesis.isConfigured = false then view
  else
    match view.account genesis.account with
    | none => view
    | some sle =>
      let (sb, destroyedXRP) := distribute genesis sle view
      let sb := blackholeAll genesis sb
      match genesis.installHooks sb with
      | none => view
      | some registry =>
        if destroyedXRP < 0 then view
        else
          { sb with
            toHookRegistry := registry
            feeSettings := sb.feeSettings.map fun sleFees =>
              { sleFees with xahauActivationLgrSeq := some sb.seq }
            drops := sb.drops - destroyedXRP }

/-- `Change::applyAmendment` for `featureXahauGenesis`. -/
def applyXahauGenesis : Ter × View :=
  (genesis.result, if genesis.enables then activateXahauGenesis genesis view else view)

end

end Change

namespace DeleteAccount

/-- `DeleteAccount::preclaim`, given the token pages and what becomes of the directory. -/
def preclaim (ownsTokenPage : Bool) (ownerDir : Ter) (view : View) (tx : STTx) : Ter :=
  -- `sfDestination` is a required field
  let dst := tx.destination.getD .zero
  match view.account dst with
  | none => .tecNO_DST
  | some sleDst =>
    if sleDst.requireDestTag = true ∧ tx.destinationTag = none then .tecDST_TAG_NEEDED
    else if view.rules.enabled .featureDepositAuth = true ∧ sleDst.depositAuth = true ∧
        view.depositPreauth dst tx.account = false then
      .tecNO_PERMISSION
    else
      match view.account tx.account with
      | none => .terNO_ACCOUNT
      | some sleAccount =>
        -- accounts created via Import are blocked from deletion
        if view.rules.enabled .featureImport = true ∧ sleAccount.importSequence ≠ none then
          .tecHAS_OBLIGATIONS
        else if sleAccount.uriTokenIssuer = true then .tecHAS_OBLIGATIONS
        else if view.rules.enabled .featureNonFungibleTokensV1 = true ∧
            (sleAccount.mintedNFTokens ≠ sleAccount.burnedNFTokens ∨ ownsTokenPage = true) then
          .tecHAS_OBLIGATIONS
        -- this prevents replay of old transactions if this account is resurrected
        else if view.seq < (sleAccount.sequence + 255) % 2 ^ 32 then .tecTOO_SOON
        else if view.rules.enabled .featureHooks = true ∧ sleAccount.hookNamespaces ≠ [] then
          .tecHAS_OBLIGATIONS
        else if view.rules.enabled .fixNFTokenRemint = true ∧
            view.seq < (sleAccount.firstNFTokenSequence.getD 0 + sleAccount.mintedNFTokens.getD 0
              + 255) % 2 ^ 32 then
          .tecTOO_SOON
        else ownerDir

end DeleteAccount

/-! ## What they leave alone -/

/-- The emission directory, the escrows and the payment channels stay as they are. -/
structure RootsOnly (view view' : View) : Prop extends SameEmissions view view' where
  escrow : view'.escrow = view.escrow
  payChan : view'.payChan = view.payChan

namespace RootsOnly

variable {view view₁ view' : View}

theorem refl : RootsOnly view view := ⟨⟨rfl, rfl, rfl, rfl⟩, rfl, rfl⟩

theorem trans (h : RootsOnly view view₁) (h' : RootsOnly view₁ view') : RootsOnly view view' :=
  ⟨h.toSameEmissions.trans h'.toSameEmissions, h'.escrow.trans h.escrow, h'.payChan.trans h.payChan⟩

variable {acc : AccountID}

theorem setAccount {sle : AccountRoot} : RootsOnly view (view.setAccount acc sle) :=
  ⟨⟨rfl, rfl, rfl, rfl⟩, rfl, rfl⟩

theorem modifyAccount {f : AccountRoot → AccountRoot} :
    RootsOnly view (View.modifyAccount f view acc) := by
  unfold View.modifyAccount
  split
  · exact .refl
  · exact .setAccount

theorem drops {drops : Int} : RootsOnly view { view with drops } := ⟨⟨rfl, rfl, rfl, rfl⟩, rfl, rfl⟩

end RootsOnly

section

variable {view view' : View} {tx : STTx}

/-- **What importing keys does**: nothing, or it sets signers, or a regular key. -/
theorem importKeys_cases (env : Import.Env) (tx : STTx) (stpTrans : Import.InnerTxn) (result : Nat)
    (sle : AccountRoot) (view : View) :
    Import.importKeys env tx stpTrans result sle view = view ∨
      (∃ id sle' ownerCount signers, view.account id = some sle' ∧
        Import.importKeys env tx stpTrans result sle view
          = { view.setAccount id { sle' with ownerCount } with signers }) ∨
      Import.importKeys env tx stpTrans result sle view
        = view.setAccount tx.account (Import.doRegularKey sle stpTrans) := by
  unfold Import.importKeys Import.doSignerList Import.setSigners
  dsimp only
  repeat' split
  all_goals first
    | exact .inl rfl
    | exact .inr (.inl ⟨_, _, _, _, ‹_›, rfl⟩)
    | exact .inr (.inr rfl)

/-- **What an import does**: it notes the sequence of the validator list, and credits what was
burned, unless that is past. -/
theorem importDoApply_cases {env : Import.Env} (h : Import.doApply env tx view = .ok view') :
    ∃ xpop stpTrans importSequence burn code importVLSeq, env.xpop = some xpop ∧
      xpop.inner = some stpTrans ∧ stpTrans.sequence = some importSequence ∧
      stpTrans.fee = some (.xrp burn) ∧ 0 < burn ∧
      (∀ sle ∈ view.account tx.account, sle.importSequence.getD 0 < importSequence) ∧
      Import.creditAccount env tx stpTrans code importSequence burn { view with importVLSeq }
        = .ok view' := by
  replace h := of_check h
  split at h
  next vlInfo stpTrans publicKey hxpop =>
    obtain ⟨view₁, hseq, h⟩ := bind_eq_ok.mp h
    have hview₁ : ∃ importVLSeq, view₁ = { view with importVLSeq } := by
      unfold Import.updateVLSeq at hseq
      split at hseq
      · exact ⟨_, (Except.ok.inj hseq).symm⟩
      split at hseq
      · cases hseq
      · split at hseq <;> exact ⟨_, (Except.ok.inj hseq).symm⟩
    obtain ⟨importVLSeq, rfl⟩ := hview₁
    split at h
    next importSequence burn code hsequ hfee _ =>
      simp only [bind_eq_ok, failIf_eq_ok, not_or, Int.not_le] at h
      obtain ⟨_, -, _, ⟨hburn, -⟩, _, hpast, h⟩ := h
      refine ⟨_, stpTrans, importSequence, burn, code, importVLSeq, hxpop, rfl, hsequ, hfee, hburn,
        fun sle hsle => ?_, h⟩
      by_contra hle
      exact hpast ⟨sle, hsle, Nat.not_lt.mp hle⟩
    · cases h
  · cases h

theorem rootsOnly_importDoApply {env : Import.Env} (h : Import.doApply env tx view = .ok view') :
    RootsOnly view view' := by
  obtain ⟨_, stpTrans, _, _, code, _, -, -, -, -, -, -, h⟩ := importDoApply_cases h
  replace h := of_check h
  cases h
  have hkeys : ∀ sle view, RootsOnly view (Import.importKeys env tx stpTrans code sle view) := by
    intro sle view
    obtain heq | ⟨id, sle', ownerCount, signers, -, heq⟩ | heq :=
      importKeys_cases env tx stpTrans code sle view <;> rw [heq] <;>
      exact ⟨⟨rfl, rfl, rfl, rfl⟩, rfl, rfl⟩
  refine .trans ?_ (.trans (.trans .setAccount (hkeys _ _)) .drops)
  unfold Import.countAccount
  repeat' split
  all_goals exact ⟨⟨rfl, rfl, rfl, rfl⟩, rfl, rfl⟩

/-- A destination is one root, whose gain is counted and which keeps its import sequence. -/
theorem mintTo_eq_ok {dest : GenesisMint} {dropsAdded dropsAdded' : Int}
    (h : GenesisMint.mintTo dest view dropsAdded = .ok (view', dropsAdded')) :
    ∃ sle, view' = view.setAccount dest.destination sle ∧
      dropsAdded' = dropsAdded
        + (sle.balance - ((view.account dest.destination).map AccountRoot.balance).getD 0) ∧
      ∀ sle', view.account dest.destination = some sle' → sle.importSequence = sle'.importSequence := by
  unfold GenesisMint.mintTo at h
  split at h
  · cases h
  · cases h
    exact ⟨_, rfl, by simp [*, GenesisMint.govern, GenesisMint.newAccount], by simp [*]⟩
  · cases h
    exact ⟨_, rfl, by simp [*, GenesisMint.govern, GenesisMint.newAccount], by simp [*]⟩
  · split at h
    · cases h
    · cases h
      exact ⟨_, rfl, by simp [*, GenesisMint.govern], by simp [*, GenesisMint.govern]⟩
  · cases h
    exact ⟨_, rfl, by simp [*, GenesisMint.govern], by simp [*, GenesisMint.govern]⟩

/-- **The activation of governance** does nothing, or distributes funds, blackholes accounts and
installs hooks. -/
theorem activateXahauGenesis_cases (genesis : Change.Genesis) (view : View) :
    Change.activateXahauGenesis genesis view = view ∨
      ∃ sle registry feeSettings, view.account genesis.account = some sle ∧
        Change.activateXahauGenesis genesis view =
          { Change.blackholeAll genesis (Change.distribute genesis sle view).1 with
            toHookRegistry := registry
            feeSettings := feeSettings
            drops := (Change.blackholeAll genesis (Change.distribute genesis sle view).1).drops
              - (Change.distribute genesis sle view).2 } := by
  unfold Change.activateXahauGenesis
  split
  · exact .inl rfl
  split
  · exact .inl rfl
  rename_i sle hsle
  dsimp only
  split
  · exact .inl rfl
  rename_i registry _
  split
  · exact .inl rfl
  · exact .inr ⟨sle, registry, _, hsle, rfl⟩

/-- What mints and the activation of governance keep step by step: they write account roots that keep
their import sequences, and fields that belong to no account. -/
structure Stepwise (R : View → View → Prop) : Prop where
  refl {view : View} : R view view
  trans {view view₁ view' : View} : R view view₁ → R view₁ view' → R view view'
  setAccount {view : View} {acc : AccountID} {sle : AccountRoot} :
    (∀ sle', view.account acc = some sle' → sle.importSequence = sle'.importSequence) →
    R view (view.setAccount acc sle)
  fields {view : View} (toHookRegistry : HookRegistry) (feeSettings : Option FeeSettings)
    (drops : Int) : R view { view with toHookRegistry, feeSettings, drops }

theorem RootsOnly.stepwise : Stepwise RootsOnly :=
  ⟨.refl, .trans, fun _ => .setAccount, fun _ _ _ => ⟨⟨rfl, rfl, rfl, rfl⟩, rfl, rfl⟩⟩

namespace Stepwise

variable {R : View → View → Prop} (hR : Stepwise R)

include hR

theorem update {acc : AccountID} {sle sle' : AccountRoot} (hacc : view.account acc = some sle)
    (hs : sle'.importSequence = sle.importSequence) : R view (view.setAccount acc sle') := by
  refine hR.setAccount fun sle₁ hsle₁ => ?_
  rw [hacc] at hsle₁
  cases hsle₁
  exact hs

theorem mintAll {dests : List GenesisMint} {dropsAdded dropsAdded' : Int}
    (h : GenesisMint.mintAll dests view dropsAdded = .ok (view', dropsAdded')) : R view view' := by
  induction dests generalizing view dropsAdded with
  | nil =>
    cases h
    exact hR.refl
  | cons dest dests ih =>
    rw [GenesisMint.mintAll, bind_eq_ok] at h
    obtain ⟨⟨view₁, dropsAdded₁⟩, hone, hrest⟩ := h
    obtain ⟨sle, rfl, -, himp⟩ := mintTo_eq_ok hone
    exact hR.trans (hR.setAccount himp) (ih hrest)

theorem creditMints {mints : List (AccountID × GenesisMint.Mint)}
    (h : GenesisMint.creditMints mints view = .ok view') : R view view' := by
  induction mints generalizing view with
  | nil =>
    cases h
    exact hR.refl
  | cons entry mints ih =>
    obtain ⟨id, mint⟩ := entry
    rw [GenesisMint.creditMints, bind_eq_ok] at h
    obtain ⟨sle, hone, hrest⟩ := h
    refine hR.trans ?_ (ih hrest)
    split at hone
    next hacc =>
      refine hR.setAccount fun sle' hsle' => ?_
      rw [hacc] at hsle'
      cases hsle'
    next sle' hacc =>
      replace hone := of_check hone
      refine hR.update hacc ?_
      cases hone
      split <;> rfl

theorem addDrops (dropsAdded : Int) : R view (GenesisMint.addDrops view dropsAdded) := by
  unfold GenesisMint.addDrops
  split
  · exact hR.fields view.toHookRegistry view.feeSettings _
  · exact hR.refl

theorem genesisMint (h : GenesisMint.doApply tx view = .ok view') : R view view' := by
  unfold GenesisMint.doApply at h
  split at h
  · obtain ⟨⟨view₁, dropsAdded⟩, hmint, h⟩ := bind_eq_ok.mp h
    replace h := of_check h
    cases h
    exact hR.trans (hR.mintAll hmint) (hR.addDrops _)
  obtain ⟨⟨mints, dropsAdded⟩, -, h⟩ := bind_eq_ok.mp h
  replace h := of_check h
  obtain ⟨view₁, hcre, h⟩ := bind_eq_ok.mp h
  cases h
  exact hR.trans (hR.creditMints hcre) (hR.addDrops _)

theorem mint (state : View × Int) (entry : AccountID × Int) :
    R state.1 (Change.mint state entry).1 := by
  unfold Change.mint
  dsimp only
  split
  next hacc =>
    refine hR.setAccount fun sle' hsle' => ?_
    rw [hacc] at hsle'
    cases hsle'
  next hacc => exact hR.update hacc rfl

theorem blackhole (objects : ℕ) (view : View) (acc : AccountID) :
    R view (View.modifyAccount (Change.blackhole objects) view acc) := by
  unfold View.modifyAccount
  split
  · exact hR.refl
  next hacc => exact hR.update hacc rfl

theorem activateXahauGenesis (genesis : Change.Genesis) (view : View) :
    R view (Change.activateXahauGenesis genesis view) := by
  obtain heq | ⟨sle, registry, feeSettings, hacc, heq⟩ := activateXahauGenesis_cases genesis view
  · rw [heq]
    exact hR.refl
  have hdis : R view (Change.distribute genesis sle view).1 :=
    List.foldlRecOn (motive := fun state : View × Int => R view state.1) _ _ (hR.update hacc rfl)
      fun state h entry _ => hR.trans h (hR.mint state entry)
  have hbla : R view (Change.blackholeAll genesis (Change.distribute genesis sle view).1) :=
    List.foldlRecOn (motive := R view) _ _ (hR.trans hdis (hR.blackhole 2 _ _))
      fun view h acc _ => hR.trans h (hR.blackhole 1 view acc)
  rw [heq]
  exact hR.trans hbla (hR.fields ..)

end Stepwise

end

end Xahau.Transactor
