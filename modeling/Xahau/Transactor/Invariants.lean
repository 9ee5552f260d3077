import Xahau.Hook.Chain
import Xahau.Transactor.Native

/-! # Invariants of transactions (`InvariantCheck.cpp`, `ApplyContext.cpp`)

Checks go through the entries that a transaction has touched. `XRPNotCreated` adds up what they hold
of the native currency: account roots, escrows and payment channels. -/

namespace Xahau.Transactor

open Hook

/-- The entries of the ledger that a transaction has touched. -/
structure Touched where
  accounts : List AccountID
  escrows : List UInt256
  payChans : List UInt256

/-- The drops that an account root holds. A root that is erased holds none. -/
def rootDrops (sle : Option AccountRoot) : Int := (sle.map AccountRoot.balance).getD 0

def escrowDrops (escrow : Option Escrow) : Int :=
  (escrow.map fun escrow => escrow.amount.drops).getD 0

/-- The drops that a payment channel holds: what was not paid yet. -/
def payChanDrops : Option PayChan → Int
  | some { amount := .xrp drops, balance, .. } => drops - balance
  | _ => 0

namespace XRPNotCreated

/-- The state of the check, as `visitEntry` leaves it. -/
structure Tally where
  drops : Int
  accountsCreated : Nat

/-- `XRPNotCreated::visitEntry`: what touched entries held before is removed from the total, and
what they hold is added. -/
def visit (visited : Touched) (before view : View) : Tally where
  drops :=
    (visited.accounts.dedup.map fun acc =>
      rootDrops (view.account acc) - rootDrops (before.account acc)).sum +
    (visited.escrows.dedup.map fun key =>
      escrowDrops (view.escrow key) - escrowDrops (before.escrow key)).sum +
    (visited.payChans.dedup.map fun key =>
      payChanDrops (view.payChan key) - payChanDrops (before.payChan key)).sum
  accountsCreated :=
    visited.accounts.dedup.countP fun acc =>
      (before.account acc).isNone && (view.account acc).isSome

/-- The most that an import may add: what was burned if the inner fee was claimed, and the bonus for
a new account. -/
def maxDropsAdded (env : Import.Env) (tally : Tally) (view : View) : Option Int := do
  let inner ← env.xpop.bind Import.Xpop.inner
  let burned ← (match inner.fee with
    | some .issued => none
    | some (.xrp drops) => some drops
    | none => some 0 : Option Int)
  let claimed := if inner.transactionResult.getD 0 ≤ 255 then burned else 0
  some (if tally.accountsCreated = 1 then claimed + Import.computeStartingBonus view else claimed)

/-- The drops that a genesis mint adds; amounts of another currency are an error. -/
def dropsMinted (tx : STTx) : Option Int :=
  if tx.genesisMints.any fun dest => decide (dest.amount = some .issued) then none
  else some (tx.genesisMints.map fun dest => (dest.amount.map Amount.drops).getD 0).sum

/-- `XRPNotCreated::finalize`. -/
def finalize (env : Import.Env) (genesis : Change.Genesis) (tx : STTx) (before view : View)
    (tally : Tally) (res : Ter) (fee : Int) : Bool :=
  if tx.txnType = ttAmendment ∧ tx.amendment = genesis.amendment then true
  else if view.rules.enabled .featureImport = true ∧ tx.txnType = ttImport ∧
      res.isTesSuccess = true then
    -- different rules for ttIMPORT
    match maxDropsAdded env tally view with
    | none => false
    | some added => decide (before.drops + added ≤ initialXrp ∧ tally.drops ≤ added - fee)
  else if view.rules.enabled .featureXahauGenesis = true ∧ tx.txnType = ttGenesisMint ∧
      res.isTesSuccess = true then
    -- different rules for ttGENESIS_MINT
    match dropsMinted tx with
    | none => false
    | some added =>
      decide (added - fee ≤ added ∧ before.drops + added ≤ initialXrp ∧ tally.drops = added - fee)
  else decide (tally.drops ≤ 0 ∧ -tally.drops = fee)

end XRPNotCreated

/-- `ApplyContext::failInvariantCheck`. If even charging a fee fails, something is very wrong, and
the transaction is not included. -/
def failInvariantCheck (result : Ter) : Ter :=
  if result = .tecINVARIANT_FAILED ∨ result = .tefINVARIANT_FAILED then .tefINVARIANT_FAILED
  else .tecINVARIANT_FAILED

end Xahau.Transactor
