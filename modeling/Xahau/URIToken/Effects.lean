import Xahau.URIToken.Registry

/-! # What transactions do to URI tokens

A transaction is checked and applied; a failed one costs the fee at most. `Change` says what a
successful one can do to a token, and what it had to carry for it. `Tx.spec` and `Remit.spec` are
the two transactors, `Transaction.spec` any transaction, failed or not. -/

namespace Xahau.URIToken

open Checked Function Keeps List Token

variable {sleU : Entry} {u : PUnit} {amount : STAmount} {id : UInt256}
  {nativeRemit nativeRemit' objectReserve : ℚ} {result state : ℚ × View}

/-! ## Applying a transaction -/

/-- The transactions that concern tokens. -/
inductive Transaction where
  | uriToken (tx : Tx)
  | remit (tx : Remit)

namespace Transaction

/-- The account that signed the transaction. -/
def account : Transaction → AccountID
  | uriToken tx => tx.account
  | remit tx => tx.account

/-- `sfFee`, in drops. -/
def fee : Transaction → ℚ
  | uriToken tx => tx.fee
  | remit tx => tx.fee

/-- How many objects a transaction can create: tokens, and two lines for each amount. -/
def creates : Transaction → ℕ
  | uriToken tx => match tx.op with
      | .mint _ _ _ _ => 1
      | .buy _ _ => 3
      | _ => 0
  | remit tx => tx.mintURIToken.toList.length + (tx.uriTokenIDs.getD []).length +
      2 * (tx.amounts.getD []).length

end Transaction

/-- The fee is paid. -/
def View.payFee (view : View) (id : AccountID) (fee : ℚ) : View :=
  match view.base.account id with
  | none => view
  | some sle => view.setBase (view.base.setAccount id { sle with balance := sle.balance - fee })

/-- The ledger after a transaction that succeeds. -/
def Transaction.run (env : Env) (view : View) : Transaction → Except Ter View
  | uriToken tx => do
    tx.preflight env view.base.rules
    tx.preclaim env view
    let sle ← view.base.getAccount tx.account .terNO_ACCOUNT
    tx.doApply env (view.payFee tx.account tx.fee) sle.balance
  | remit tx => do
    tx.preflight env view.base.rules
    let sle ← view.base.getAccount tx.account .terNO_ACCOUNT
    tx.doApply env (view.payFee tx.account tx.fee) (sle.balance - tx.fee)

/-- The ledger after a transaction, of which a failed one claims the fee. -/
def Transaction.apply (env : Env) (view : View) (tx : Transaction) : View :=
  match tx.run env view with
  | .ok view' => view'
  | .error ter => if ter.isTecClaim then view.payFee tx.account tx.fee else view

/-! ## Changes of a token -/

/-- What a successful transaction can do to one token, with payments from `base`. -/
inductive Change (env : Env) (base : Token.View) :
    Transaction → UInt256 → Option Entry → Option Entry → Prop where
  | same {tx id entry} : Change env base tx id entry entry
  | minted {tx uri digest amount destination page} :
      tx.op = .mint uri digest amount destination →
      Change env base (.uriToken tx) (env.uritoken tx.account uri) none (some
        { owner := tx.account
          ownerNode := page
          issuer := tx.account
          uri := uri
          digest := digest
          amount := amount
          destination := destination
          flags := tx.flags &&& lsfBurnable })
  | burned {tx id sleU} : tx.op = .burn id → sleU.owner = tx.account ∨ sleU.issuer = tx.account →
      Change env base (.uriToken tx) id (some sleU) none
  | offered {tx id amount destination sleU} : tx.op = .createSellOffer id amount destination →
      tx.account = sleU.owner →
      Change env base (.uriToken tx) id (some sleU)
        (some { sleU with amount := some amount, destination := destination })
  | cancelled {tx id sleU} : tx.op = .cancelSellOffer id → tx.account = sleU.owner →
      Change env base (.uriToken tx) id (some sleU)
        (some { sleU with amount := none, destination := none })
  /-- The price is paid to the owner. -/
  | bought {tx id amount asked sleU page base'} : tx.op = .buy id amount →
      sleU.amount = some asked → (∀ dest ∈ sleU.destination, dest = tx.account) →
      amount.issue = asked.issue → asked.value ≤ amount.value →
      accountSend env.toEnv base tx.account sleU.owner amount false = .ok base' →
      Change env base (.uriToken tx) id (some sleU) (some
        { sleU with owner := tx.account, ownerNode := page, amount := none, destination := none })
  | remitMinted {tx mint page} : mint ∈ tx.mintURIToken →
      Change env base (.remit tx) (env.uritoken tx.account mint.uri) none (some
        { owner := tx.destination
          ownerNode := page
          issuer := tx.account
          uri := mint.uri
          digest := mint.digest
          amount := none
          destination := none
          flags := mint.flags.getD 0 })
  | remitted {tx id sleU page} : id ∈ tx.uriTokenIDs.getD [] → sleU.owner = tx.account →
      Change env base (.remit tx) id (some sleU) (some
        { sleU with owner := tx.destination, ownerNode := page, amount := none, destination := none })

section

variable {env : Env} {view view' : View} {key : UInt256} {mPriorBalance mSourceBalance : ℚ}

theorem Change.of_update {base : Token.View} {tx : Transaction} {entry : Option Entry}
    (hkey : Change env base tx key (view.token key) entry)
    (htok : view'.token = update view.token key entry) (id : UInt256) :
    Change env base tx id (view.token id) (view'.token id) := by
  rw [htok]
  by_cases hid : id = key
  · subst hid
    rw [update_self]
    exact hkey
  · rw [update_of_ne hid]
    exact .same

theorem View.getToken_eq_ok {sleOwner : AccountRoot}
    (h : view.getToken id = .ok (sleU, sleOwner)) : view.token id = some sleU := by
  rw [View.getToken] at h
  split at h
  next => cases h
  next sleU' hsleU =>
    obtain ⟨_, -, h⟩ := bind_eq_ok.mp h
    cases h
    exact hsleU

theorem Keeps.payFee (id : AccountID) (fee : ℚ) : Keeps env 0 view (view.payFee id fee) := by
  rw [View.payFee]
  split
  next => exact refl env view
  next sle hsle => exact of_settles (Settles.of_balance hsle rfl) rfl

theorem View.token_payFee (view : View) (id : AccountID) (fee : ℚ) : (view.payFee id fee).token = view.token := by
  rw [View.payFee]
  split <;> rfl

/-! ## `URIToken` -/

variable {tx : Tx}

theorem Tx.mint_spec {uri : Blob} {digest : Option UInt256} {amount : Option STAmount}
    {destination : Option AccountID} (hop : tx.op = .mint uri digest amount destination)
    (hsome : (view.base.account tx.account).isSome)
    (h : tx.mint env view uri digest amount destination = .ok view') :
    Keeps env 1 view view' ∧ ∀ id, Change env view.base (.uriToken tx) id (view.token id)
      (view'.token id) := by
  rw [Tx.mint] at h
  obtain ⟨hfree, h⟩ := of_failIf h
  replace h := of_check h
  obtain ⟨⟨page, base⟩, hins, h⟩ := bind_eq_ok.mp h
  cases h
  have hn : view.token (env.uritoken tx.account uri) = none := by
    simpa using hfree
  refine ⟨of_mint hn rfl hsome hins rfl rfl, Change.of_update ?_ rfl⟩
  rw [hn]
  exact .minted hop

/-- **Burning**. -/
theorem Tx.burn_spec (hop : tx.op = .burn id)
    (hsleU : view.token id = some sleU) (h : tx.burn view id sleU = .ok view') :
    Keeps env 0 view view' ∧ ∀ id, Change env view.base (.uriToken tx) id (view.token id)
      (view'.token id) := by
  rw [Tx.burn] at h
  obtain ⟨hmay, h⟩ := of_failIf h
  obtain ⟨base, hrem, h⟩ := bind_eq_ok.mp h
  cases h
  refine ⟨of_burn hsleU hrem rfl rfl, Change.of_update ?_ rfl⟩
  rw [hsleU]
  refine .burned hop ?_
  by_cases hown : sleU.owner = tx.account
  · exact .inl hown
  refine .inr ?_
  by_contra hissr
  exact hmay ⟨hown, fun h => hissr h.1⟩

theorem Tx.checkOffer_eq_ok {account : AccountID} (h : Tx.checkOffer account sleU amount = .ok u) :
    ∃ asked, sleU.amount = some asked ∧ (∀ dest ∈ sleU.destination, dest = account) ∧
      amount.issue = asked.issue ∧ asked.value ≤ amount.value := by
  rw [Tx.checkOffer] at h
  split at h
  next => cases h
  next asked hask =>
    obtain ⟨hdest, h⟩ := of_failIf h
    obtain ⟨hissue, h⟩ := of_failIf h
    refine ⟨asked, hask, fun dest hmem => ?_, not_not.mp hissue,
      not_lt.mp (failIf_eq_ok.mp h)⟩
    rw [show sleU.destination = some dest from hmem] at hdest
    simpa using hdest

/-- **Buying**. -/
theorem Tx.buy_spec {sle : AccountRoot} (hop : tx.op = .buy id amount)
    (hsome : (view.base.account tx.account).isSome) (hsleU : view.token id = some sleU)
    (h : tx.buy env view sle id sleU amount mPriorBalance = .ok view') :
    Keeps env 3 view view' ∧ ∀ id, Change env view.base (.uriToken tx) id (view.token id)
      (view'.token id) := by
  rw [Tx.buy] at h
  obtain ⟨_, hoff, h⟩ := bind_eq_ok.mp h
  replace h := of_check h
  obtain ⟨base, hsend, h⟩ := bind_eq_ok.mp h
  obtain ⟨⟨page, base₁⟩, hins, h⟩ := bind_eq_ok.mp h
  obtain ⟨base₂, hrem, h⟩ := bind_eq_ok.mp h
  replace h := of_check (of_check h)
  cases h
  obtain ⟨asked, hask, hdest, hissue, hval⟩ := Tx.checkOffer_eq_ok hoff
  obtain ⟨hacc₁, hline₁⟩ := View.dirInsert_same hins
  obtain ⟨hacc₂, hline₂⟩ := View.dirRemove_same hrem
  have hacc : base₂.account = base.account := hacc₂.trans hacc₁
  have hset := Settles.accountSend hsend
  have hpaid : Keeps env 2 view (view.setBase base) := of_settles hset rfl
  constructor
  · refine hpaid.trans (of_transfer hsleU rfl (fun id' page' key => ?_) ?_ (fun id' hid => ?_)
      fun hpos hroom id' => ?_)
    · have hlis := View.listed_dirRemove hrem id' page' key
      rw [View.listed_dirInsert hins] at hlis
      simpa [View.setBase, View.setToken, View.listed_adjustOwnerCount] using hlis
    · change (adjustOwnerCount (adjustOwnerCount base₂ sleU.owner (-1)) tx.account 1).line = base.line
      rw [View.line_adjustOwnerCount, View.line_adjustOwnerCount, hline₂, hline₁]
    · change ((adjustOwnerCount (adjustOwnerCount base₂ sleU.owner (-1)) tx.account 1).account id').isSome
      rw [View.isSome_adjustOwnerCount, View.isSome_adjustOwnerCount, hacc]
      exact hid
    · have hmove := View.count_move base₂ rfl
        (by rw [View.count_congr hacc]; exact hpos)
        (by rw [hacc]; exact hset.isSome _ hsome)
        (by rw [View.count_congr hacc]; exact hroom tx.account) id'
      rw [View.count_congr hacc] at hmove
      exact hmove
  · refine Change.of_update ?_ rfl
    rw [hsleU]
    exact .bought hop hask hdest hissue hval hsend

theorem Tx.owner_of_cancel (hop : tx.op = .cancelSellOffer id) (hsleU : view.token id = some sleU)
    (h : tx.preclaim env view = .ok u) : tx.account = sleU.owner := by
  rw [Tx.preclaim, hop] at h
  obtain ⟨⟨sleU', sleOwner⟩, hget, h⟩ := bind_eq_ok.mp h
  replace h := of_check h
  obtain rfl := Option.some.inj (hsleU.symm.trans (View.getToken_eq_ok hget))
  exact not_not.mp (failIf_eq_ok.mp h)

/-- **`URIToken`**: what a successful transaction does. -/
theorem Tx.spec (hcan : ∀ id sleU, tx.op = .cancelSellOffer id → view.token id = some sleU →
      tx.account = sleU.owner)
    (h : tx.doApply env view mPriorBalance = .ok view') :
    Keeps env (Transaction.uriToken tx).creates view view' ∧
      ∀ id, Change env view.base (.uriToken tx) id (view.token id) (view'.token id) := by
  rw [Tx.doApply] at h
  obtain ⟨sle, hsle, h⟩ := bind_eq_ok.mp h
  have hsome : (view.base.account tx.account).isSome := by
    rw [View.getAccount_eq_ok hsle]
    rfl
  rw [Transaction.creates]
  generalize hop : tx.op = op at h ⊢
  cases op with
  | mint uri digest amount destination =>
    replace h := of_check h
    exact Tx.mint_spec hop hsome h
  | buy id amount =>
    replace h := of_check h
    obtain ⟨⟨sleU, sleOwner⟩, hget, h⟩ := bind_eq_ok.mp h
    exact Tx.buy_spec hop hsome (View.getToken_eq_ok hget) h
  | burn id =>
    obtain ⟨⟨sleU, sleOwner⟩, hget, h⟩ := bind_eq_ok.mp h
    exact Tx.burn_spec hop (View.getToken_eq_ok hget) h
  | createSellOffer id amount destination =>
    obtain ⟨⟨sleU, sleOwner⟩, hget, h⟩ := bind_eq_ok.mp h
    obtain ⟨hown, h⟩ := of_failIf h
    cases h
    have hsleU := View.getToken_eq_ok hget
    refine ⟨of_offer hsleU rfl rfl, Change.of_update ?_ rfl⟩
    rw [hsleU]
    exact .offered hop (not_not.mp hown)
  | cancelSellOffer id =>
    obtain ⟨⟨sleU, sleOwner⟩, hget, h⟩ := bind_eq_ok.mp h
    cases h
    have hsleU := View.getToken_eq_ok hget
    refine ⟨of_offer hsleU rfl rfl, Change.of_update ?_ rfl⟩
    rw [hsleU]
    exact .cancelled hop (hcan id sleU hop hsleU)

/-! ## `Remit` -/

/-- The entry of a token that is minted for the destination. -/
def Remit.minted (tx : Remit) (mint : MintURIToken) (page : ℕ) : Entry where
  owner := tx.destination
  ownerNode := page
  issuer := tx.account
  uri := mint.uri
  digest := mint.digest
  amount := none
  destination := none
  flags := mint.flags.getD 0

/-- The entry of a token that is sent to an account. -/
def Entry.sent (sleU : Entry) (owner : AccountID) (page : ℕ) : Entry :=
  { sleU with owner, ownerNode := page, amount := none, destination := none }

theorem Remit.createDestination_spec (env : Env) {tx : Remit} {accountReserve : ℚ}
    (h : tx.createDestination view accountReserve = .ok (nativeRemit, view')) :
    Keeps env 0 view view' ∧ view'.token = view.token ∧
      (view'.base.account tx.destination).isSome := by
  rw [Remit.createDestination] at h
  split at h
  next sle hsle =>
    cases h
    refine ⟨refl env view, rfl, ?_⟩
    rw [hsle]
    rfl
  next hn =>
    obtain ⟨_, -, h⟩ := bind_eq_ok.mp h
    cases h
    refine ⟨of_settles (Settles.of_eq rfl rfl (fun id hsome => ?_) fun id => ?_) rfl, rfl, ?_⟩
    · by_cases hid : id = tx.destination
      · simp [View.setBase, Token.View.setAccount, hid]
      · simpa [View.setBase, Token.View.setAccount, hid] using hsome
    · by_cases hid : id = tx.destination
      · subst hid
        simp [View.setBase, Token.View.count, Token.View.setAccount, hn]
      · simp [View.setBase, Token.View.count, Token.View.setAccount, hid]
    · simp [View.setBase, Token.View.setAccount]

section

variable {tx : Remit}

theorem Remit.mintToken_spec {mint : MintURIToken}
    (hsome : (view.base.account tx.destination).isSome)
    (h : tx.mintToken env objectReserve mint (nativeRemit, view) = .ok (nativeRemit', view')) :
    Keeps env 1 view view' ∧ view.token (env.uritoken tx.account mint.uri) = none ∧
      ∃ page, view'.token =
        update view.token (env.uritoken tx.account mint.uri) (some (tx.minted mint page)) := by
  rw [Remit.mintToken] at h
  obtain ⟨_, -, h⟩ := bind_eq_ok.mp h
  obtain ⟨hfree, h⟩ := of_failIf h
  obtain ⟨⟨page, base⟩, hins, h⟩ := bind_eq_ok.mp h
  cases h
  have hn : view.token (env.uritoken tx.account mint.uri) = none := by
    simpa using hfree
  exact ⟨of_mint hn rfl hsome hins rfl rfl, hn, page, rfl⟩

theorem Remit.mintTokens_spec (hsome : (state.2.base.account tx.destination).isSome)
    (h : tx.mintURIToken.toList.foldlM (fun state mint => tx.mintToken env objectReserve mint state)
      state = .ok result) :
    Keeps env tx.mintURIToken.toList.length state.2 result.2 ∧ ∀ id,
      result.2.token id = state.2.token id ∨ ∃ mint page, mint ∈ tx.mintURIToken ∧
        env.uritoken tx.account mint.uri = id ∧ state.2.token id = none ∧
          result.2.token id = some (tx.minted mint page) := by
  cases hmint : tx.mintURIToken with
  | none =>
    rw [hmint] at h
    obtain rfl := Except.ok.inj h
    exact ⟨refl env state.2, fun _ => .inl rfl⟩
  | some mint =>
    rw [hmint] at h
    obtain ⟨⟨nativeRemit, view⟩, hfirst, h⟩ := bind_eq_ok.mp h
    cases h
    obtain ⟨hkee, hn, page, htok⟩ := Remit.mintToken_spec hsome hfirst
    refine ⟨hkee, fun id => ?_⟩
    by_cases hid : env.uritoken tx.account mint.uri = id
    · subst hid
      exact .inr ⟨mint, page, rfl, rfl, hn, by rw [htok, update_self]⟩
    · exact .inl (by rw [htok, update_of_ne (Ne.symm hid)])

theorem Remit.sendToken_spec (env : Env) {tx : Remit}
    (hsome : (view.base.account tx.destination).isSome)
    (h : tx.sendToken objectReserve (nativeRemit, view) key = .ok (nativeRemit', view')) :
    Keeps env 1 view view' ∧ ∃ sleU page, view.token key = some sleU ∧ sleU.owner = tx.account ∧
      view'.token = update view.token key (some (sleU.sent tx.destination page)) := by
  rw [Remit.sendToken] at h
  split at h
  next => cases h
  next sleU hsleU =>
    obtain ⟨hown, h⟩ := of_failIf h
    obtain ⟨_, -, h⟩ := bind_eq_ok.mp h
    obtain ⟨base₁, hrem, h⟩ := bind_eq_ok.mp h
    obtain ⟨⟨page, base₂⟩, hins, h⟩ := bind_eq_ok.mp h
    cases h
    have hown : sleU.owner = tx.account := not_not.mp hown
    obtain ⟨hacc₁, hline₁⟩ := View.dirRemove_same hrem
    obtain ⟨hacc₂, hline₂⟩ := View.dirInsert_same hins
    refine ⟨of_transfer hsleU rfl (fun id page' key' => ?_) ?_ (fun id hid => ?_)
      fun hpos hroom id => ?_, sleU, page, hsleU, hown, rfl⟩
    · have hremo := View.listed_dirRemove hrem id page' key'
      have hinse := View.listed_dirInsert hins id page' key'
      rw [View.listed_adjustOwnerCount] at hinse
      change (adjustOwnerCount base₂ tx.destination 1).listed id page' key' + _ =
        _ + if id = tx.destination ∧ page' = page ∧ key' = key then 1 else 0
      rw [View.listed_adjustOwnerCount, hown]
      omega
    · change (adjustOwnerCount base₂ tx.destination 1).line = view.base.line
      rw [View.line_adjustOwnerCount, hline₂, View.line_adjustOwnerCount, hline₁]
    · change ((adjustOwnerCount base₂ tx.destination 1).account id).isSome
      rw [View.isSome_adjustOwnerCount, hacc₂, View.isSome_adjustOwnerCount, hacc₁]
      exact hid
    · have hmove := View.count_move base₁ hacc₂
        (by rw [View.count_congr hacc₁, ← hown]; exact hpos)
        (by rw [hacc₁]; exact hsome)
        (by rw [View.count_congr hacc₁]; exact hroom tx.destination) id
      rw [View.count_congr hacc₁, ← hown] at hmove
      exact hmove

theorem Remit.sendAmount_spec
    (h : tx.sendAmount env objectReserve (nativeRemit, view) amount = .ok (nativeRemit', view')) :
    Keeps env 2 view view' ∧ view'.token = view.token := by
  rw [Remit.sendAmount] at h
  split at h
  next =>
    obtain ⟨_, -, h⟩ := bind_eq_ok.mp h
    cases h
    exact ⟨(refl env view).mono (by decide), rfl⟩
  next issue _ =>
    replace h := of_check h
    replace h := of_check h
    replace h := of_check h
    obtain ⟨_, -, h⟩ := bind_eq_ok.mp h
    obtain ⟨base, hsend, h⟩ := bind_eq_ok.mp h
    cases h
    exact ⟨of_settles (Settles.accountSend hsend) rfl, rfl⟩

theorem Remit.payNative_spec (env : Env) {tx : Remit}
    (h : tx.payNative view nativeRemit mSourceBalance = .ok view') :
    Keeps env 0 view view' ∧ view'.token = view.token := by
  rw [Remit.payNative] at h
  replace h := of_check h
  split at h
  next =>
    replace h := of_check h
    obtain ⟨sleSrcAcc, hsrc, h⟩ := bind_eq_ok.mp h
    obtain ⟨sleDstAcc, hdst, h⟩ := bind_eq_ok.mp h
    replace h := of_check h
    cases h
    have hpaid : Settles env.toEnv 0 view.base (view.base.setAccount tx.account
        { sleSrcAcc with balance := mSourceBalance - nativeRemit }) :=
      Settles.of_balance (View.getAccount_eq_ok hsrc) rfl
    have hrec : Settles env.toEnv 0 _ (Token.View.setAccount _ tx.destination
        { sleDstAcc with balance := sleDstAcc.balance + nativeRemit }) :=
      Settles.of_balance (View.getAccount_eq_ok hdst) rfl
    exact ⟨of_settles (hpaid.trans hrec) rfl, rfl⟩
  next =>
    cases h
    exact ⟨refl env view, rfl⟩

theorem Remit.sendTokens_spec (env : Env) {tx : Remit} (hne : tx.destination ≠ tx.account)
    {ids : List UInt256} (hsome : (state.2.base.account tx.destination).isSome)
    (h : ids.foldlM (tx.sendToken objectReserve) state = .ok result) :
    Keeps env ids.length state.2 result.2 ∧ ∀ id, result.2.token id = state.2.token id ∨
      ∃ sleU page, id ∈ ids ∧ state.2.token id = some sleU ∧ sleU.owner = tx.account ∧
        result.2.token id = some (sleU.sent tx.destination page) := by
  induction ids generalizing state with
  | nil =>
    obtain rfl := Except.ok.inj h
    exact ⟨refl env state.2, fun _ => .inl rfl⟩
  | cons key ids ih =>
    rw [foldlM_cons] at h
    obtain ⟨⟨nativeRemit, view⟩, hfirst, h⟩ := bind_eq_ok.mp h
    obtain ⟨hkee, sleU, page, hsleU, hown, htoke⟩ := Remit.sendToken_spec env hsome hfirst
    obtain ⟨hrest, htok⟩ := ih (hkee.isSome _ hsome) h
    refine ⟨(hkee.trans hrest).mono (by rw [length_cons]; omega), fun id => ?_⟩
    by_cases hid : id = key
    · subst hid
      have hself : view.token id = some (sleU.sent tx.destination page) := by
        rw [htoke, update_self]
      refine .inr ⟨sleU, page, mem_cons_self, hsleU, hown, ?_⟩
      rcases htok id with hs | ⟨sleU', _, -, hsleU', hown', -⟩
      · rw [hs, hself]
      -- the sender does not own it any more
      cases hself.symm.trans hsleU'
      exact absurd hown' hne
    · have hs : view.token id = state.2.token id := by rw [htoke, update_of_ne hid]
      rw [← hs]
      rcases htok id with hrest' | ⟨sleU', page', hmem, hrest'⟩
      · exact .inl hrest'
      · exact .inr ⟨sleU', page', mem_cons_of_mem _ hmem, hrest'⟩

theorem Remit.sendAmounts_spec {amounts : List STAmount}
    (h : amounts.foldlM (tx.sendAmount env objectReserve) state = .ok result) :
    Keeps env (2 * amounts.length) state.2 result.2 ∧ result.2.token = state.2.token := by
  induction amounts generalizing state with
  | nil =>
    obtain rfl := Except.ok.inj h
    exact ⟨refl env state.2, rfl⟩
  | cons amount amounts ih =>
    rw [foldlM_cons] at h
    obtain ⟨⟨nativeRemit, view⟩, hfirst, h⟩ := bind_eq_ok.mp h
    obtain ⟨hkee, htoke⟩ := Remit.sendAmount_spec hfirst
    obtain ⟨hrest, htok⟩ := ih h
    refine ⟨(hkee.trans hrest).mono (by rw [length_cons]; omega), ?_⟩
    rw [htok, ← htoke]

/-- **`Remit`**: what a successful transaction does. -/
theorem Remit.spec (hne : tx.destination ≠ tx.account)
    (h : tx.doApply env view mSourceBalance = .ok view') :
    Keeps env (Transaction.remit tx).creates view view' ∧
      ∀ id, Change env view.base (.remit tx) id (view.token id) (view'.token id) := by
  rw [Remit.doApply] at h
  replace h := of_check (of_check (of_check (of_check (of_check h))))
  obtain ⟨⟨_, view₁⟩, hcre, h⟩ := bind_eq_ok.mp h
  obtain ⟨⟨_, view₂⟩, hmint, h⟩ := bind_eq_ok.mp h
  obtain ⟨⟨_, view₃⟩, hsend, h⟩ := bind_eq_ok.mp h
  obtain ⟨⟨_, view₄⟩, hamo, h⟩ := bind_eq_ok.mp h
  obtain ⟨view₅, hpay, h⟩ := bind_eq_ok.mp h
  replace h := of_check h
  obtain rfl := Except.ok.inj h
  obtain ⟨hkee₁, htok₁, hsome₁⟩ := Remit.createDestination_spec env hcre
  obtain ⟨hkee₄, htok₄⟩ := Remit.sendAmounts_spec hamo
  obtain ⟨hkee₅, htok₅⟩ := Remit.payNative_spec env hpay
  have htok : view₅.token = view₃.token := htok₅.trans htok₄
  obtain ⟨hkee₂, htok₂⟩ := Remit.mintTokens_spec hsome₁ hmint
  obtain ⟨hkee₃, htok₃⟩ := Remit.sendTokens_spec env hne (hkee₂.isSome _ hsome₁) hsend
  have hkee := (((hkee₁.trans hkee₂).trans hkee₃).trans hkee₄).trans hkee₅
  refine ⟨hkee.mono (by rw [Transaction.creates]; omega), fun id => ?_⟩
  rw [htok, ← htok₁]
  rcases htok₂ id with hs | ⟨mint, page, hmem, rfl, hn, hmin⟩
  · rw [← hs]
    rcases htok₃ id with hs' | ⟨sleU, page, hmem, hsleU, hown, hsent⟩
    · rw [hs']
      exact .same
    · rw [hsleU, hsent]
      exact .remitted hmem hown
  · -- what was minted belongs to the destination and is not sent
    rcases htok₃ (env.uritoken tx.account mint.uri) with hs' | ⟨sleU, _, -, hsleU, hown, -⟩
    · rw [hs', hn, hmin]
      exact .remitMinted hmem
    · cases hmin.symm.trans hsleU
      exact absurd hown hne

/-! ## Any transaction -/

theorem Remit.preflight_ne {rules : Rules} (h : tx.preflight env rules = .ok u) :
    tx.destination ≠ tx.account := by
  rw [Remit.preflight] at h
  replace h := of_check h
  obtain ⟨_, hne, -⟩ := bind_eq_ok.mp h
  exact failIf_eq_ok.mp hne

end

/-- **A transaction** keeps what the ledger says about the tokens, and changes one as `Change`
lists. -/
theorem Transaction.spec (env : Env) (view : View) (tx : Transaction) :
    Keeps env tx.creates view (tx.apply env view) ∧
      ∀ id, Change env (view.payFee tx.account tx.fee).base tx id (view.token id)
        ((tx.apply env view).token id) := by
  have hfee : Keeps env 0 view (view.payFee tx.account tx.fee) := payFee _ _
  have hfeeToken := View.token_payFee view tx.account tx.fee
  rw [Transaction.apply]
  cases hrun : tx.run env view with
  | error ter =>
    dsimp only
    split
    · refine ⟨hfee.mono (Nat.zero_le _), fun id => ?_⟩
      rw [hfeeToken]
      exact .same
    · exact ⟨(refl env view).mono (Nat.zero_le _), fun _ => .same⟩
  | ok view' =>
    rw [← hfeeToken]
    suffices Keeps env tx.creates (view.payFee tx.account tx.fee) view' ∧
        ∀ id, Change env (view.payFee tx.account tx.fee).base tx id
          ((view.payFee tx.account tx.fee).token id) (view'.token id) from
      ⟨(hfee.trans this.1).mono (by omega), this.2⟩
    cases tx with
    | uriToken tx =>
      replace hrun := of_check hrun
      obtain ⟨_, hprec, hrun⟩ := bind_eq_ok.mp hrun
      obtain ⟨sle, -, hrun⟩ := bind_eq_ok.mp hrun
      refine Tx.spec (fun id sleU hop hsleU => ?_) hrun
      exact Tx.owner_of_cancel hop (by rw [← hfeeToken]; exact hsleU) hprec
    | remit tx =>
      obtain ⟨_, hpre, hrun⟩ := bind_eq_ok.mp hrun
      obtain ⟨sle, -, hrun⟩ := bind_eq_ok.mp hrun
      exact Remit.spec (Remit.preflight_ne hpre) hrun

end

end Xahau.URIToken
