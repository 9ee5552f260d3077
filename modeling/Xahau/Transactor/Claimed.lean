import Xahau.Transactor.Ledgers

/-! # Transactions that only claim a fee

A transaction with a `tec` result is not to have any effects of its own: all changes are discarded,
and the fee is charged anew. The result is set at several places; after the hooks that follow the
application, a transaction whose changes were kept can still be given a `tec` result. -/

namespace Xahau.Transactor

open Hook Checked

section

variable {env : Env} {tx : STTx} {before view : View} {preclaimResult : Ter} {outcome : TxOutcome}

/-- The transaction has left none of its own effects: its ledger is what the balance rewards and
later hooks make of a reset. -/
def OnlyClaims (env : Env) (tx : STTx) (before : View) (outcome : TxOutcome) : Prop :=
  outcome.own = false ∧ ∃ settled aawMap result ids, ResetView env tx before settled ∧
    conclude env tx aawMap result settled = .ok (outcome.result, outcome.view, ids)

/-- Later hooks cannot change the result: there are none, or the changes are not too large. -/
def Fits (env : Env) (rules : Rules) : Prop :=
  rules.enabled .featureHooks = false ∨ ∀ view, env.size view ≤ oversizeMetaDataCap

theorem result_of_conclude {aawMap : List (AccountID × List UInt256)} {result result' : Ter}
    {settled : Settled} {ids : List UInt256}
    (h : conclude env tx aawMap result settled = .ok (result', view, ids)) :
    result' = result ∨ (view.rules.enabled .featureHooks = true ∧
      ∃ view', oversizeMetaDataCap < env.size view') := by
  obtain ⟨⟨view₁, ids₁⟩, -, h⟩ := bind_eq_ok.mp h
  replace h := of_check h
  cases h
  split
  next hover =>
    exact .inr ⟨hover.1, view₁, hover.2⟩
  · exact .inl rfl

/-- **When `operator()` applies a transaction** it settles it, with the transactor's changes or a
reset, and concludes. -/
theorem operator_applied (h : operator env tx preclaimResult before = .ok outcome)
    (happ : outcome.applied = true) :
    ∃ strong result view result' settled ids,
      (if before.rules.enabled .featureHooks = true ∧ preclaimResult.isTesSuccess = true then
          strongPhase env tx before
        else .ok ⟨preclaimResult, before, [], []⟩) = .ok strong ∧
      (if strong.result.isTesSuccess then apply env tx strong.view
        else .ok (strong.result, strong.view)) = .ok (result, view) ∧
      settle env tx before result view = (result', some settled) ∧
      conclude env tx strong.aawMap result' settled = .ok (outcome.result, outcome.view, ids) ∧
      outcome.own = settled.own := by
  unfold operator at h
  split at h
  · cases h
    cases happ
  obtain ⟨strong, hstr, h⟩ := bind_eq_ok.mp h
  obtain ⟨⟨result, view⟩, happl, h⟩ := bind_eq_ok.mp h
  dsimp only at h
  split at h
  · cases h
    cases happ
  rename_i result' settled hset
  obtain ⟨⟨result₂, view₂, ids⟩, hcon, h⟩ := bind_eq_ok.mp h
  cases h
  exact ⟨strong, result, view, result', settled, ids, hstr, happl, hset, hcon, rfl⟩

theorem rules_of_operator (h : operator env tx preclaimResult before = .ok outcome) :
    outcome.view.rules = before.rules := by
  have hvm : env.vm.EmitsOnly (· ∈ Set.univ) := fun _ _ _ _ _ => trivial
  rcases operator_cases hvm h with ⟨-, hview⟩ | ⟨-, happ⟩
  · rw [hview]
  · exact happ.traces.rules

end

/-! ## A success that becomes a `tec` -/

/-- A payment whose stakeholder's weak hook sets a state, and whose transactor sets a flag. The size
of the changes is given, without and with the state. -/
def resizedEnv (size sizeAfter : Nat) : Env :=
  { acceptingEnv [(owner, false)] [] with
    vm := fun invocation view stateMap =>
      { rollbackVm [([0, 9, 7], .stateSet 1 1 2 1)] [] invocation view stateMap with
        exitType := .accept }
    doApply := fun view =>
      (.tesSUCCESS, View.modifyAccount (fun sle => { sle with requireDestTag := true }) view
        strangerPayment.account)
    touched := ⟨[strangerPayment.account], [], []⟩
    size := fun view =>
      if view.hookState owner (.ofByte 7) ownerHook.hookNamespace = none then size else sizeAfter }

/-- The flag that the transactor sets. -/
def flagged (view : View) : Bool :=
  ((view.account strangerPayment.account).map AccountRoot.requireDestTag).getD false

end Xahau.Transactor
