import Xahau.URIToken.Effects

/-! # Who owns a URI token

Over every history a token is listed and counted for its owner (`filed_of_run`, `owned_of_run`), it
stays what it was minted as, and it changes hands in two ways only (`Change.changes_hands`): its
owner remits it, or somebody pays what its owner asked for it (`offer_made`). `ownership` puts them
together. -/

namespace Xahau.URIToken

open Checked Token

/-- A transaction is applied, and the owner counts have room for what it can create. -/
def Step (env : Env) (view : View) (tx : Transaction) (view' : View) : Prop :=
  view' = tx.apply env view ∧ view.base.Room tx.creates

/-- A ledger without tokens or entries for any; the owner counts are those of other objects. -/
structure Start (env : Env) (rest : AccountID → ℕ) (view : View) : Prop where
  token : ∀ id, view.token id = none
  listed : ∀ issuer uri id page, view.base.listed id page (env.uritoken issuer uri) = 0
  balanced : view.base.Balanced rest

section

variable (env : Env) (base : Token.View) (tx : Transaction) (id : UInt256)

section

variable (owner : AccountID) (asked : STAmount) (destination : Option AccountID)

/-- The transaction offers a token for sale. -/
def Transaction.Offers : Prop :=
  ∃ tx', tx = .uriToken tx' ∧
    ((∃ uri digest, tx'.op = .mint uri digest (some asked) destination ∧
        env.uritoken tx'.account uri = id) ∨
      tx'.op = .createSellOffer id asked destination)

/-- The token belongs to somebody and is for sale. -/
def ForSale (view : View) : Prop :=
  ∃ sleU, view.token id = some sleU ∧ sleU.owner = owner ∧ sleU.amount = some asked ∧
    sleU.destination = destination

end

/-- The token is remitted by its owner. -/
def Transaction.Remits (sleU sleU' : Entry) : Prop :=
  ∃ tx', tx = .remit tx' ∧ tx'.account = sleU.owner ∧ tx'.destination = sleU'.owner ∧
    id ∈ tx'.uriTokenIDs.getD []

/-- The token is bought by its new owner, who paid at least what was asked. -/
def Transaction.Buys (sleU sleU' : Entry) (asked : STAmount) : Prop :=
  ∃ tx' amount base', tx = .uriToken tx' ∧ tx'.op = .buy id amount ∧ tx'.account = sleU'.owner ∧
    sleU.amount = some asked ∧ (∀ dest ∈ sleU.destination, dest = sleU'.owner) ∧
    amount.issue = asked.issue ∧ asked.value ≤ amount.value ∧
    accountSend env.toEnv base sleU'.owner sleU.owner amount false = .ok base'

end

section

variable {env : Env} {rest : AccountID → ℕ} {start view view' : View} {tx : Transaction}
  {txs : List Transaction} {id : UInt256} {sleU sleU' : Entry}

/-! ## One change -/

variable {asked : STAmount} {base : Token.View}

/-- **A token changes hands** by a remit or a purchase, and then has no offer. -/
theorem Change.changes_hands
    (h : Change env base tx id (some sleU) (some sleU')) (hown : sleU'.owner ≠ sleU.owner) :
    sleU'.amount = none ∧ sleU'.destination = none ∧
      (tx.Remits id sleU sleU' ∨ ∃ asked, tx.Buys env base id sleU sleU' asked) := by
  cases h with
  | same | offered | cancelled => exact absurd rfl hown
  | @bought tx id amount asked sleU page base' hop hask hdest hissue hval hsend =>
    exact ⟨rfl, rfl, .inr ⟨asked, tx, amount, base', rfl, hop, rfl, hask, hdest, hissue, hval,
      hsend⟩⟩
  | @remitted tx id sleU page hmem hsig =>
    exact ⟨rfl, rfl, .inl ⟨tx, rfl, hsig.symm, rfl, hmem⟩⟩

theorem Change.offers {entry : Option Entry}
    (h : Change env base tx id entry (some sleU')) (hask : sleU'.amount = some asked)
    (hnew : entry ≠ some sleU') :
    tx.account = sleU'.owner ∧ tx.Offers env id asked sleU'.destination := by
  cases h with
  | same => exact absurd rfl hnew
  | @minted tx uri digest amount destination page hop =>
    obtain rfl : amount = some asked := hask
    exact ⟨rfl, tx, rfl, .inl ⟨uri, digest, hop, rfl⟩⟩
  | @offered tx id amount destination sleU hop hsig =>
    obtain rfl : amount = asked := Option.some.inj hask
    exact ⟨hsig, tx, rfl, .inr hop⟩
  | cancelled | bought | remitMinted | remitted => cases hask

/-! ## Histories -/

theorem filed_of_run (hapa : env.Apart) (hsta : Start env rest start)
    (hrun : Run (Step env) start txs view) : Filed env view := by
  apply hrun.invariant fun _ view => Filed env view
  · refine ⟨fun {id sleU} hid => ?_, fun issuer uri id page => ?_⟩
    · rw [hsta.token] at hid
      cases hid
    · rw [hsta.listed, hsta.token, listing_none]
  · rintro _ view tx _ hfil ⟨rfl, -⟩
    exact (Transaction.spec env view tx).1.filed hapa hfil

section

variable (hsta : Start env rest start) (hrun : Run (Step env) start txs view)

include hsta hrun

/-- The tokens are counted in every history. -/
theorem owned_of_run : view.Counted rest := by
  apply hrun.invariant fun _ view => view.Counted rest
  · have hn : start.tokens = 0 := by
      funext id
      rw [View.tokens]
      simp only [hsta.token, Option.map_none]
      exact Holdings.holdings_none id
    rw [View.Counted, hn]
    simpa using hsta.balanced
  · rintro _ view tx _ hcou ⟨rfl, hroom⟩
    exact (Transaction.spec env view tx).1.counted rest hcou hroom

/-- **The offer was made by the owner**, and it has stood since. -/
theorem offer_made (hsleU : view.token id = some sleU) (hask : sleU.amount = some asked) :
    ∃ before offer after view₁ view₂, txs = before ++ offer :: after ∧
      Run (Step env) start before view₁ ∧ Step env view₁ offer view₂ ∧
      offer.account = sleU.owner ∧ offer.Offers env id asked sleU.destination ∧
      Run (Run.Within (Step env) (ForSale id sleU.owner asked sleU.destination)) view₂ after view := by
  have hnot : ¬ ForSale id sleU.owner asked sleU.destination start := by
    rintro ⟨_, hid, -⟩
    rw [hsta.token] at hid
    cases hid
  obtain ⟨before, offer, after, view₁, view₂, htxs, hbef, hnot₁, hstep, hsale, haft⟩ :=
    hrun.exists_established _ hnot ⟨sleU, hsleU, rfl, hask, rfl⟩
  obtain ⟨sleU₂, hsleU₂, hown, hask₂, hdest⟩ := hsale
  have hcha := (Transaction.spec env view₁ offer).2 id
  rw [← hstep.1, hsleU₂] at hcha
  obtain ⟨hsig, hoff⟩ := hcha.offers hask₂ fun hs =>
    hnot₁ ⟨sleU₂, hs, hown, hask₂, hdest⟩
  refine ⟨before, offer, after, view₁, view₂, htxs, hbef, hstep, ?_, ?_, haft⟩
  · rw [hsig, hown]
  · rw [← hdest]
    exact hoff

end

/-- **Ownership of URI tokens.** After every history, each token is listed once, in its owner's
directory on the page that it names, and the owner counts are the numbers of tokens, lines and other
objects. Whatever comes next, a token keeps its issuer, URI and digest, and when its owner changes,
no offer is left on it, and either the owner has remitted it, or the new owner has bought it for at
least what was asked, was free to do so, and the offer was the owner's. -/
theorem ownership (hapart : env.Apart) (hstart : Start env rest start)
    (hrun : Run (Step env) start txs view) :
    (∀ id sleU, view.token id = some sleU → ∀ account page, view.base.listed account page id =
        if account = sleU.owner ∧ page = sleU.ownerNode then 1 else 0) ∧
      (∀ account, view.base.count account =
        view.tokens account + rest account + view.base.reserves account) ∧
      ∀ tx view', Step env view tx view' → ∀ id sleU sleU', view.token id = some sleU →
        view'.token id = some sleU' →
        (sleU'.issuer = sleU.issuer ∧ sleU'.uri = sleU.uri ∧ sleU'.digest = sleU.digest) ∧
        (sleU'.owner ≠ sleU.owner → sleU'.amount = none ∧ sleU'.destination = none ∧
          (tx.Remits id sleU sleU' ∨ ∃ asked,
            tx.Buys env (view.payFee tx.account tx.fee).base id sleU sleU' asked ∧
            ∃ before offer after view₁ view₂, txs = before ++ offer :: after ∧
              Run (Step env) start before view₁ ∧ Step env view₁ offer view₂ ∧
              offer.account = sleU.owner ∧ offer.Offers env id asked sleU.destination ∧
              Run (Run.Within (Step env) (ForSale id sleU.owner asked sleU.destination)) view₂ after
                view)) := by
  refine ⟨fun id sleU hsleU account page => ?_, owned_of_run hstart hrun, ?_⟩
  · have hfiled := filed_of_run hapart hstart hrun
    have hlisted := hfiled.listed sleU.issuer sleU.uri account page
    rw [hfiled.keyed hsleU, hsleU, listing_some] at hlisted
    exact hlisted
  rintro tx _ ⟨rfl, -⟩ id sleU sleU' hsleU hsleU'
  have hchange := (Transaction.spec env view tx).2 id
  rw [hsleU, hsleU'] at hchange
  refine ⟨by cases hchange <;> exact ⟨rfl, rfl, rfl⟩, fun howner => ?_⟩
  obtain ⟨hamount, hdest, hhow⟩ := hchange.changes_hands howner
  refine ⟨hamount, hdest, ?_⟩
  rcases hhow with hremits | ⟨asked, hbuys⟩
  · exact .inl hremits
  have hasked : sleU.amount = some asked := by
    obtain ⟨_, _, _, -, -, -, hasked, -⟩ := hbuys
    exact hasked
  exact .inr ⟨asked, hbuys, offer_made hstart hrun hsleU hasked⟩

end

/-! ## Examples -/

/-- The functions of the examples. -/
def sampleEnv : Env where
  isAddable _ _ := true
  lineIndex _ := .ofByte 1
  escrowKeylet _ _ := .ofByte 3
  payChanKeylet _ _ _ := .ofByte 4
  conditionCheck _ _ := .ok ⟨⟩
  checkCondition _ _ := true
  uritoken _ _ := .ofByte 2
  validateUTF8 _ := true

/-- A ledger with one account, which owns a number of objects. -/
def sampleStart (ownerCount : UInt32) : View where
  base :=
    { rules := ⟨fun _ => true⟩
      fees := { reserve := 10, increment := 2 }
      parentCloseTime := 0
      account := Function.update (fun _ => none) (.ofByte 5)
        (some { balance := 1000, ownerCount := ownerCount })
      line := fun _ => none
      escrow := fun _ => none
      payChan := fun _ => none
      ownerDir := fun _ => Directory.empty
      depositPreauth := fun _ _ => false }
  token := fun _ => none
  uriTokenIssuer := fun _ => false
  disallowIncomingRemit := fun _ => false

/-- The account mints a token and offers it for 50 drops. -/
def sampleMint : Transaction :=
  .uriToken ⟨.ofByte 5, 10, 0, .mint [0x61] none (some ⟨50, none⟩) none⟩

theorem count_sampleStart (ownerCount : UInt32) (id : AccountID) :
    (sampleStart ownerCount).base.count id = if id = .ofByte 5 then ownerCount.toNat else 0 := by
  by_cases hid : id = .ofByte 5 <;> simp [Token.View.count, sampleStart, hid]

theorem start_sampleStart (ownerCount : UInt32) :
    Start sampleEnv (fun id => if id = .ofByte 5 then ownerCount.toNat else 0)
      (sampleStart ownerCount) := by
  refine ⟨fun _ => rfl, fun _ _ _ _ => rfl, fun id => ?_⟩
  have hres : (sampleStart ownerCount).base.reserves id = 0 := by
    rw [Token.View.reserves, Token.View.reservesAs, Token.View.reservesAs]
    exact congrArg₂ (· + ·) (Holdings.holdings_none id) (Holdings.holdings_none id)
  rw [count_sampleStart, hres, Nat.add_zero]

theorem sampleMint_ownership :
    ∃ sleU, (sampleMint.apply sampleEnv (sampleStart 0)).token (.ofByte 2) = some sleU ∧
      ∀ account page, (sampleMint.apply sampleEnv (sampleStart 0)).base.listed account page
        (.ofByte 2) = if account = sleU.owner ∧ page = sleU.ownerNode then 1 else 0 := by
  have hne : (BaseUInt.ofByte 1 : UInt256) ≠ .ofByte 2 := by decide
  have hapart : sampleEnv.Apart := fun _ _ _ => hne
  have hstep : Step sampleEnv (sampleStart 0) sampleMint (sampleMint.apply sampleEnv (sampleStart 0)) := by
    refine ⟨rfl, fun id => ?_⟩
    rw [count_sampleStart, show (0 : UInt32).toNat = 0 from rfl, ite_self]
    decide
  obtain ⟨sleU, hsleU⟩ : ∃ sleU,
      (sampleMint.apply sampleEnv (sampleStart 0)).token (.ofByte 2) = some sleU :=
    Option.isSome_iff_exists.1 (by decide +kernel)
  exact ⟨sleU, hsleU, (ownership hapart (start_sampleStart 0) (Run.single hstep)).1 _ sleU hsleU⟩

/-- An account with 2³² − 1 objects can mint one more, and its count stays. -/
theorem owner_count_full :
    ∃ rest, Start sampleEnv rest (sampleStart 0xFFFFFFFF) ∧
      (∃ view', sampleMint.run sampleEnv (sampleStart 0xFFFFFFFF) = .ok view' ∧
        view'.base.count (.ofByte 5) ≠
          view'.tokens (.ofByte 5) + rest (.ofByte 5) + view'.base.reserves (.ofByte 5)) := by
  refine ⟨_, start_sampleStart _, ?_⟩
  have hrun : ∃ view', sampleMint.run sampleEnv (sampleStart 0xFFFFFFFF) = .ok view' ∧
      view'.base.count (.ofByte 5) = 0xFFFFFFFF ∧
      (view'.token (.ofByte 2)).map Entry.owner = some (.ofByte 5) := by
    decide +kernel
  obtain ⟨view', hok, hcount, howner⟩ := hrun
  refine ⟨view', hok, ?_⟩
  have hheld : 0 < view'.tokens (.ofByte 5) := Holdings.holdings_pos howner
  rw [hcount, if_pos rfl]
  change (0xFFFFFFFF : ℕ) ≠ view'.tokens (.ofByte 5) + 0xFFFFFFFF + _
  omega

end Xahau.URIToken
