import Xahau.Transactor.Emitted

/-! # Emitted transactions over many ledgers

Transactions are applied one after another, and now and then a ledger closes. Whatever the flags of
the server are and whoever has supplied it, an ordinary emitted transaction is applied only if it
waits in the emission directory, where a hook of an applied transaction has put it, and no longer
waits then. So it is applied again only if it is emitted again, by a transaction that would have to
be applied again.

`G` is a set of transactions in which no two have the same identifier. -/

namespace Xahau.Transactor

open Hook List

/-- What happens to the ledger. -/
inductive Event : Type where
  /-- Someone asks for a transaction to be applied. -/
  | apply (env : Env) (tx : STTx) (outcome : TxOutcome)
  /-- The next ledger is opened. -/
  | nextLedger (rules : Rules) (fees : Fees) (seq : Nat)

namespace Event

/-- The transaction was applied. -/
def Applies : Event → STTx → Prop
  | apply _ tx outcome, tx' => tx = tx' ∧ outcome.applied = true
  | nextLedger .., _ => False

/-- The transactions that were put into the emission directory. -/
def inserted : Event → List UInt256
  | apply _ _ outcome => outcome.inserted
  | nextLedger .. => []

end Event

/-- One event, among the transactions of `G`. -/
def Step (G : Set STTx) (view : View) : Event → View → Prop
  | .apply env tx outcome, view' =>
    tx ∈ G ∧ env.vm.EmitsOnly (· ∈ G) ∧ applyTransaction env tx view = .ok outcome ∧
      view' = outcome.view
  | .nextLedger rules fees seq, view' =>
    EmissionChecked rules ∧ view' = { view with rules, fees, seq, txs := [] }

/-- The ledger from which a run starts: nothing was emitted yet. -/
structure Genesis (view : View) : Prop where
  emittedTxn : ∀ id, view.emittedTxn id = none
  rules : EmissionChecked view.rules

/-- Transactions not emitted are applied at most once: they use up a sequence number or ticket, or
belong to one ledger. -/
def RootsOnce (es : List Event) : Prop :=
  es.Pairwise fun e e' => ∀ tx, e.Applies tx → e'.Applies tx → OrdinaryEmitted tx

/-- Some event applied a transaction for which `tx` was emitted. -/
def ParentApplied (es : List Event) (tx : STTx) : Prop :=
  ∃ e ∈ es, ∃ otxn, e.Applies otxn ∧ EmittedFor otxn tx

/-- Some event applied a transaction for which `tx` was emitted, and inserted `tx`. -/
def PutBy (es : List Event) (tx : STTx) : Prop :=
  ∃ e ∈ es, ∃ otxn, e.Applies otxn ∧ EmittedFor otxn tx ∧ tx.transactionID ∈ e.inserted

section

variable {G : Set STTx} {es : List Event} {e : Event} {genesis view view' : View} {env : Env}
  {tx otxn otxn' : STTx} {outcome : TxOutcome}

theorem emittedFor_unique (hG : Set.InjOn STTx.transactionID G) (hotxn : otxn ∈ G)
    (hotxn' : otxn' ∈ G) (h : EmittedFor otxn tx) (h' : EmittedFor otxn' tx) : otxn = otxn' := by
  obtain ⟨-, emitDetails, hdet, hpar⟩ := h
  obtain ⟨-, emitDetails', hdet', hpar'⟩ := h'
  rw [hdet] at hdet'
  cases hdet'
  exact hG hotxn hotxn' (hpar.symm.trans hpar')

theorem ordinaryEmitted_of_emittedFor (h : EmittedFor otxn tx) : OrdinaryEmitted tx := by
  obtain ⟨hpse, emitDetails, hdet, -⟩ := h
  refine ⟨?_, hpse⟩
  unfold STTx.isEmittedTxn
  rw [hdet]
  rfl

/-- What holds of the ledger after the events `es`. -/
structure Inv (G : Set STTx) (es : List Event) (view : View) : Prop where
  rules : EmissionChecked view.rules
  mem : ∀ e ∈ es, ∀ tx, e.Applies tx → tx ∈ G
  /-- Every entry is of a transaction that was emitted, and not for itself. -/
  entry : ∀ id entry, view.emittedTxn id = some entry → entry.tx ∈ G ∧
    entry.tx.transactionID = id ∧ ¬ EmittedFor entry.tx entry.tx ∧ PutBy es entry.tx
  /-- An emitted transaction is not applied before the one for which it was emitted. -/
  parent : ∀ e ∈ es, ∀ tx, e.Applies tx → OrdinaryEmitted tx → ParentApplied es tx
  /-- An emitted transaction does not wait once it was applied. -/
  gone : RootsOnce es → ∀ e ∈ es, ∀ tx, e.Applies tx → OrdinaryEmitted tx →
    view.emittedTxn tx.transactionID = none

theorem PutBy.append (h : PutBy es tx) (es' : List Event) : PutBy (es ++ es') tx := by
  obtain ⟨e, he, hput⟩ := h
  exact ⟨e, mem_append_left _ he, hput⟩

theorem ParentApplied.append (h : ParentApplied es tx) (es' : List Event) :
    ParentApplied (es ++ es') tx := by
  obtain ⟨e, he, happ⟩ := h
  exact ⟨e, mem_append_left _ he, happ⟩

theorem PutBy.parentApplied (h : PutBy es tx) : ParentApplied es tx := by
  obtain ⟨e, he, otxn, happ, hfor, -⟩ := h
  exact ⟨e, he, otxn, happ, hfor⟩

section

variable (hG : Set.InjOn STTx.transactionID G) (hinv : Inv G es view) (htx : tx ∈ G)

include hG hinv htx

theorem Inv.waiting (hwai : Waits view tx.transactionID) :
    ¬ EmittedFor tx tx ∧ PutBy es tx ∧ ∃ entry, view.emittedTxn tx.transactionID = some entry ∧
      entry.tx = tx ∧ view.emittedDir.Holds entry.ownerNode tx.transactionID := by
  obtain ⟨entry, hent, hh⟩ := hwai
  obtain ⟨hmem, hid, hself, hput⟩ := hinv.entry _ entry hent
  have heq : entry.tx = tx := hG hmem htx hid
  rw [heq] at hself hput
  exact ⟨hself, hput, entry, hent, heq, hh⟩

theorem Inv.emittedTxn_eq_none (hord : OrdinaryEmitted tx) (hwai : Waits view tx.transactionID)
    (happ : Applied G tx view outcome) : outcome.view.emittedTxn tx.transactionID = none := by
  by_contra hsome
  obtain ⟨entry, hent⟩ := Option.ne_none_iff_exists'.mp hsome
  obtain ⟨⟨hfor, hmem⟩, hid⟩ := happ.removed hinv.rules.1 hord.2 hord.1 hwai entry hent
  -- only the transaction itself could have emitted it again
  rw [hG hmem htx hid] at hfor
  exact (hinv.waiting hG htx hwai).1 hfor

end

theorem Inv.idle (hinv : Inv G es view) (hidle : ∀ tx, ¬ e.Applies tx)
    (hrul : EmissionChecked view'.rules) (hemi : view'.emittedTxn = view.emittedTxn) :
    Inv G (es ++ [e]) view' := by
  have hold : ∀ e' ∈ es ++ [e], ∀ tx, e'.Applies tx → e' ∈ es := by
    intro e' he' tx happ
    rcases mem_append.mp he' with he' | he'
    · exact he'
    · rw [mem_singleton.mp he'] at happ
      exact absurd happ (hidle tx)
  refine ⟨hrul, ?_, ?_, ?_, ?_⟩
  · intro e' he' tx happ
    exact hinv.mem e' (hold e' he' tx happ) tx happ
  · intro id entry hent
    rw [hemi] at hent
    obtain ⟨hmem, hid, hself, hput⟩ := hinv.entry id entry hent
    exact ⟨hmem, hid, hself, hput.append _⟩
  · intro e' he' tx happ hord
    exact (hinv.parent e' (hold e' he' tx happ) tx happ hord).append _
  · intro honce e' he' tx happ hord
    rw [hemi]
    exact hinv.gone (pairwise_append.mp honce).1 e' (hold e' he' tx happ) tx happ
      hord

/-- **Applying a transaction keeps the invariant.** -/
theorem Inv.apply (hG : Set.InjOn STTx.transactionID G) (hinv : Inv G es view) (htx : tx ∈ G)
    (hout : outcome.applied = true) (happl : Applied G tx view outcome)
    (hwai : OrdinaryEmitted tx → Waits view tx.transactionID) :
    Inv G (es ++ [.apply env tx outcome]) outcome.view := by
  have hlast : Event.apply env tx outcome ∈ es ++ [.apply env tx outcome] :=
    mem_append_right _ (mem_singleton_self _)
  have happ : (Event.apply env tx outcome).Applies tx := ⟨rfl, hout⟩
  -- an applied transaction is an earlier one or this one
  have hcas : ∀ e' ∈ es ++ [Event.apply env tx outcome], ∀ tx', e'.Applies tx' →
      (e' ∈ es ∨ tx' = tx) := by
    intro e' he' tx' happ'
    rcases mem_append.mp he' with he' | he'
    · exact .inl he'
    · rw [mem_singleton.mp he'] at happ'
      exact .inr happ'.1.symm
  refine ⟨?_, ?_, ?_, ?_, ?_⟩
  · rw [happl.traces.rules]
    exact hinv.rules
  · intro e' he' tx' happ'
    rcases hcas e' he' tx' happ' with hes | rfl
    · exact hinv.mem e' hes tx' happ'
    · exact htx
  · intro id entry hent
    rcases happl.traces.new id entry hent with hold | ⟨⟨hfor, hmem⟩, hid, hins⟩
    · obtain ⟨hmem, hid, hself, hput⟩ := hinv.entry id entry hold
      exact ⟨hmem, hid, hself, hput.append _⟩
    refine ⟨hmem, hid, fun hself => ?_, _, hlast, tx, happ, hfor, hid ▸ hins⟩
    -- a transaction emitted for itself would have waited before it was applied
    have heq : tx = entry.tx := emittedFor_unique hG htx hmem hfor hself
    rw [← heq] at hself
    exact (hinv.waiting hG htx (hwai (ordinaryEmitted_of_emittedFor hself))).1 hself
  · intro e' he' tx' happ' hord
    rcases hcas e' he' tx' happ' with hes | rfl
    · exact (hinv.parent e' hes tx' happ' hord).append _
    · exact ((hinv.waiting hG htx (hwai hord)).2.1.append _).parentApplied
  · intro honce e' he' tx' happ' hord
    obtain ⟨honce_es, -, hcro⟩ := pairwise_append.mp honce
    rcases hcas e' he' tx' happ' with hes | rfl
    · by_contra hsome
      obtain ⟨entry, hent⟩ := Option.ne_none_iff_exists'.mp hsome
      have hn := hinv.gone honce_es e' hes tx' happ' hord
      rcases happl.traces.new _ entry hent with hold | ⟨⟨hfor, hmem⟩, hid, -⟩
      · rw [hn] at hold
        cases hold
      -- it was emitted again, so that its parent is the transaction applied now, and once before
      rw [hG hmem (hinv.mem e' hes tx' happ') hid] at hfor
      obtain ⟨e'', hes'', otxn, happ'', hfor'⟩ := hinv.parent e' hes tx' happ' hord
      have heq : otxn = tx := emittedFor_unique hG (hinv.mem e'' hes'' otxn happ'') htx hfor' hfor
      rw [heq] at happ''
      have hord' : OrdinaryEmitted tx := hcro e'' hes'' _ (mem_singleton_self _) tx happ'' happ
      obtain ⟨entry', hent', -⟩ := hwai hord'
      rw [hinv.gone honce_es e'' hes'' tx happ'' hord'] at hent'
      cases hent'
    · exact hinv.emittedTxn_eq_none hG htx hord (hwai hord) happl

theorem inv_of_run (hG : Set.InjOn STTx.transactionID G) (hgen : Genesis genesis)
    (hrun : Run (Step G) genesis es view) : Inv G es view := by
  apply hrun.invariant (Inv G)
  · refine ⟨hgen.rules, ?_, ?_, ?_, ?_⟩
    · intro e he
      exact absurd he not_mem_nil
    · intro id entry hent
      rw [hgen.emittedTxn] at hent
      cases hent
    · intro e he
      exact absurd he not_mem_nil
    · intro _ e he
      exact absurd he not_mem_nil
  · rintro es view (⟨env, tx, outcome⟩ | ⟨rules, fees, seq⟩) view' hinv hstep
    · obtain ⟨htx, hvm, happly, rfl⟩ := hstep
      rcases applyTransaction_cases hvm happly with ⟨href, hview⟩ | ⟨hout, happl, hwai⟩
      · rw [hview]
        refine hinv.idle (fun tx' happ => ?_) hinv.rules rfl
        rw [happ.2] at href
        cases href
      · exact hinv.apply hG htx hout happl (hwai hinv.rules)
    · obtain ⟨hrul, rfl⟩ := hstep
      exact hinv.idle (fun tx happ => happ) hrul rfl

end

/-! ## An emission, and a failed one -/

/-- Nothing can be imported. -/
def noImport : Import.Env where
  xpop := none
  importVLKeys := []
  calcAccountID _ := .zero
  decline _ := ⟨0, by decide⟩
  removeSigners _ _ := none
  replaceSigners _ _ _ _ := none

/-- Governance is not activated. -/
def noGenesis : Change.Genesis where
  amendment := .ofByte 1
  result := .tefALREADY
  enables := false
  isConfigured := false
  account := .ofByte 1
  distribution := []
  tables := []
  installHooks _ := none

/-- Checks and transactors that do nothing, on a server that knows the transaction as emitted. The
hook accepts and calls `emit`; the stakeholder can reject. -/
def acceptingEnv (stakeHolders : List (AccountID × Bool)) (emits : List EmitCall) : Env where
  flags := ⟨false, false, false⟩
  routerEmitted := true
  preflight := .tesSUCCESS
  checkFee := .tesSUCCESS
  checkSign := .tesSUCCESS
  preclaim := .tesSUCCESS
  vm invocation view stateMap :=
    { rollbackVm [] emits invocation view stateMap with exitType := .accept }
  stakeHolders _ := stakeHolders
  additionalWeakTSH := []
  doApply view := (.tesSUCCESS, view)
  touched := ⟨[], [], []⟩
  removedOffers _ _ := []
  importEnv := noImport
  genesis := noGenesis
  ownsTokenPage := false
  ownerDir := .tesSUCCESS
  invariants _ _ _ _ := true
  affectedRoots _ := []
  size _ := 0

/-- A ledger in which the owner has a hook. There is no account zero. -/
def hookedLedger : View :=
  { emptyView collectRegistry with
    account := fun acc => if acc = .zero then none else (emptyView collectRegistry).account acc }

/-- The pseudo-transaction that clears away the emission of the owner's hook. -/
def emitFailure : STTx where
  transactionID := .ofByte 40
  txnType := ttEmitFailure
  account := .zero
  emitDetails := emittedByOwner.emitDetails
  transactionHash := emittedByOwner.transactionID

def exampleTxs : List STTx := [strangerPayment, emittedByOwner, emitFailure]

theorem injOn_exampleTxs : Set.InjOn STTx.transactionID {tx | tx ∈ exampleTxs} :=
  fun _ hx _ hy h => inj_on_of_nodup_map (by decide) hx hy h

variable {outcome : TxOutcome}

theorem step_strangerPayment
    (h : applyTransaction (acceptingEnv [(owner, true)] [emitByOwner]) strangerPayment hookedLedger
      = .ok outcome) :
    Step {tx | tx ∈ exampleTxs} hookedLedger
      (.apply (acceptingEnv [(owner, true)] [emitByOwner]) strangerPayment outcome)
        outcome.view := by
  refine ⟨by decide, ?_, h, rfl⟩
  intro invocation view stateMap call hcall
  rw [mem_singleton.mp hcall]
  decide

theorem step_acceptingEnv_nil {tx : STTx} {view : View} (htx : tx ∈ exampleTxs)
    (h : applyTransaction (acceptingEnv [] []) tx view = .ok outcome) :
    Step {tx | tx ∈ exampleTxs} view (.apply (acceptingEnv [] []) tx outcome) outcome.view :=
  ⟨htx, fun _ _ _ _ hcall => absurd hcall not_mem_nil, h, rfl⟩

end Xahau.Transactor
