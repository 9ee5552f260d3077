import Xahau.Basics.Protocol
import Xahau.Ledger.Directory

/-! # Tokens in the ledger (`STAmount.h`, `View.cpp`)

Amounts of tokens, the trust lines on which accounts hold them, and the escrows and payment channels
that lock them. Numbers are exact; whether a sum would lose too much precision is a parameter. -/

namespace Xahau.Token

open Checked

/-! ## Amounts -/

/-- A `Currency`. -/
abbrev Currency := BaseUInt 20

/-- An `Issue`: a currency and the account that issues it. -/
@[ext] structure Issue where
  currency : Currency
  account : AccountID
  deriving DecidableEq

/-- The currency whose code has the three given letters. -/
def currencyOf (a b c : UInt8) : Currency :=
  ⟨List.replicate 12 0 ++ [a, b, c, 0, 0, 0, 0, 0], rfl⟩

/-- `isBadCurrency`: the name of the native currency, in any case. -/
def isBadCurrency (currency : Currency) : Bool :=
  currency ∈ [currencyOf 0x78 0x61 0x68, currencyOf 0x78 0x61 0x48, currencyOf 0x78 0x41 0x68,
    currencyOf 0x78 0x41 0x48, currencyOf 0x58 0x61 0x68, currencyOf 0x58 0x61 0x48,
    currencyOf 0x58 0x41 0x68, currencyOf 0x58 0x41 0x48]

/-- An `STAmount`: a number of drops, or of tokens. -/
structure STAmount where
  value : ℚ
  /-- No issue for the native currency. -/
  issue : Option Issue
  deriving DecidableEq

namespace STAmount

/-- `isXRP`. -/
def isXRP (amount : STAmount) : Bool := amount.issue = none

/-- `getIssuer`; the native currency has the account zero. -/
def getIssuer (amount : STAmount) : AccountID := (amount.issue.map Issue.account).getD .zero

/-- `zeroed`. -/
def zeroed (amount : STAmount) : STAmount := { amount with value := 0 }

section

variable (v1 v2 : STAmount)

/-- `areComparable`: the currencies are the same. The issuers can be different. -/
def areComparable : Bool := v1.issue.map Issue.currency = v2.issue.map Issue.currency

/-- Adding or comparing amounts of different currencies throws. -/
def check : Except Ter PUnit := failIf (areComparable v1 v2 = false) .tefEXCEPTION

/-- `operator+`: the sum has the issue of the first amount. -/
def add : Except Ter STAmount := do
  check v1 v2
  .ok { v1 with value := v1.value + v2.value }

/-- `operator-`. -/
def sub : Except Ter STAmount := do
  check v1 v2
  .ok { v1 with value := v1.value - v2.value }

end

end STAmount

/-! ## Entries of the ledger -/

/-- An account root, as far as the modelled code needs it. -/
structure AccountRoot where
  /-- `sfBalance`, in drops. -/
  balance : ℚ
  ownerCount : UInt32
  /-- `sfTransferRate`, when present. -/
  transferRate : Option Nat := none
  /-- `lsfRequireAuth`. -/
  requireAuth : Bool := false
  /-- `lsfGlobalFreeze`. -/
  globalFreeze : Bool := false
  /-- `lsfDefaultRipple`. -/
  defaultRipple : Bool := false
  /-- `lsfDepositAuth`. -/
  depositAuth : Bool := false
  /-- `lsfRequireDestTag`. -/
  requireDestTag : Bool := false
  /-- `lsfDisallowXRP`. -/
  disallowXRP : Bool := false
  /-- `lsfDisallowIncomingPayChan`. -/
  disallowIncomingPayChan : Bool := false

/-- A trust line for one of the accounts: limit, flags and qualities. -/
structure Side where
  limit : ℚ := 0
  reserve : Bool := false
  auth : Bool := false
  noRipple : Bool := false
  freeze : Bool := false
  qualityIn : Nat := 0
  qualityOut : Nat := 0

/-- A trust line. Balances are positive if the low account holds tokens. -/
structure RippleState where
  balance : ℚ
  low : Side
  high : Side
  lowNode : Nat := 0
  highNode : Nat := 0
  /-- `sfLockedBalance`, when present. -/
  lockedBalance : Option ℚ := none
  /-- `sfLockCount`, when present. -/
  lockCount : Option UInt32 := none

section

variable (line : RippleState) (high : Bool)

/-- What the line has for the high account, or for the low one. -/
def RippleState.side : Side := if high then line.high else line.low

/-- The line with one of its sides changed. -/
def RippleState.setSide (side : Side) : RippleState :=
  if high then { line with high := side } else { line with low := side }

/-- A balance in the terms of the high account, or of the low one. -/
def inTerms (balance : ℚ) : ℚ := if high then -balance else balance

end

/-- The two accounts of a line, the smaller one first, and the currency. -/
structure LineKey where
  low : AccountID
  high : AccountID
  currency : Currency
  deriving DecidableEq

/-- `keylet::line`. -/
def lineKey (a b : AccountID) (currency : Currency) : LineKey :=
  if a.data < b.data then ⟨a, b, currency⟩ else ⟨b, a, currency⟩

structure Escrow where
  amount : STAmount
  account : AccountID
  destination : AccountID
  condition : Option Blob
  cancelAfter : Option Nat
  finishAfter : Option Nat
  transferRate : Option Nat
  ownerNode : Nat
  destinationNode : Option Nat

structure PayChan where
  /-- Funds held in this channel. -/
  amount : STAmount
  /-- Amount channel has already paid. -/
  balance : STAmount
  account : AccountID
  destination : AccountID
  settleDelay : Nat
  publicKey : Blob
  cancelAfter : Option Nat
  expiration : Option Nat
  transferRate : Option Nat
  ownerNode : Nat
  destinationNode : Option Nat

/-- The view to which transactions are applied. -/
structure View where
  rules : Rules
  fees : Fees
  parentCloseTime : Nat
  account : AccountID → Option AccountRoot
  line : LineKey → Option RippleState
  escrow : UInt256 → Option Escrow
  payChan : UInt256 → Option PayChan
  ownerDir : AccountID → Directory
  /-- Whether there is a `keylet::depositPreauth`. -/
  depositPreauth : AccountID → AccountID → Bool

/-- What is not computed: the precision of amounts and the keylets. -/
structure Env where
  /-- `isAddable`: the format of amounts loses little when the two are added. -/
  isAddable : ℚ → ℚ → Bool
  /-- The index of a line. -/
  lineIndex : LineKey → UInt256
  /-- `keylet::escrow`. -/
  escrowKeylet : AccountID → Nat → UInt256
  /-- `keylet::payChan`. -/
  payChanKeylet : AccountID → AccountID → Nat → UInt256
  /-- The condition can be deserialised, and its type is supported. -/
  conditionCheck : Rules → Blob → Except Ter PUnit
  /-- `checkCondition` of a fulfillment and a condition. -/
  checkCondition : Blob → Blob → Bool

namespace View

section

variable (view : View) (id : AccountID) (key : UInt256)

def setLine (key : LineKey) (line : RippleState) : View :=
  { view with line := Function.update view.line key (some line) }

/-- The view with an account root. -/
def setAccount (root : AccountRoot) : View :=
  { view with account := Function.update view.account id (some root) }

/-- The view with an escrow, or without it. -/
def setEscrow (escrow : Option Escrow) : View :=
  { view with escrow := Function.update view.escrow key escrow }

/-- The view with a payment channel, or without it. -/
def setPayChan (payChan : Option PayChan) : View :=
  { view with payChan := Function.update view.payChan key payChan }

/-- The view with an owner directory. -/
def setOwnerDir (dir : Directory) : View :=
  { view with ownerDir := Function.update view.ownerDir id dir }

/-- The account root; it is an error if there is none. -/
def getAccount (result : Ter) : Except Ter AccountRoot :=
  match view.account id with
  | some root => .ok root
  | none => .error result

/-- `dirInsert` into an owner directory: the page, unless full. A broken directory ends the process.
-/
def dirInsert : Except Ter (Nat × View) :=
  match (view.ownerDir id).dirAdd (!view.rules.enabled .fixPageCap) false key with
  | .error _ => .error .tefEXCEPTION
  | .ok none => .error .tecDIR_FULL
  | .ok (some (page, dir)) => .ok (page, view.setOwnerDir id dir)

/-- `dirRemove` from an owner directory. -/
def dirRemove (page : Nat) (key : UInt256) (keepRoot : Bool) : Except Ter View :=
  match (view.ownerDir id).dirRemove page key keepRoot with
  | .error _ => .error .tefEXCEPTION
  | .ok (false, _) => .error .tefBAD_LEDGER
  | .ok (true, dir) => .ok (view.setOwnerDir id dir)

end

end View

/-- `confineOwnerCount`. -/
def confineOwnerCount (current : UInt32) (adjustment : Int) : UInt32 :=
  let adjusted := current + .ofInt adjustment
  if 0 < adjustment then if adjusted < current then 0xFFFFFFFF else adjusted
  else if current < adjusted then 0 else adjusted

section

variable (env : Env) (view : View)

/-- `adjustOwnerCount`. -/
def adjustOwnerCount (id : AccountID) (amount : Int) : View :=
  match view.account id with
  | none => view
  | some sle => view.setAccount id { sle with ownerCount := confineOwnerCount sle.ownerCount amount }

/-- `parityRate`. -/
def parityRate : Nat := 1000000000

/-- `transferRate`. -/
def transferRate (issuer : AccountID) : Nat :=
  ((view.account issuer).bind AccountRoot.transferRate).getD parityRate

/-- `trustCreate` with limit zero and default qualities, for `dst` to hold tokens of `src`. -/
def trustCreate (src dst : AccountID) (currency : Currency) (noRipple : Bool) (balance : ℚ) :
    Except Ter View := do
  let key := lineKey src dst currency
  let setHigh := decide (key.high = dst)
  let (lowNode, view) ← view.dirInsert key.low (env.lineIndex key)
  let (highNode, view) ← view.dirInsert key.high (env.lineIndex key)
  let slePeer ← view.getAccount src .tecNO_TARGET
  let side : Side := { reserve := true, noRipple := noRipple }
  -- the other side's default is no rippling
  let peerSide : Side := { noRipple := slePeer.defaultRipple = false }
  let line : RippleState :=
    { balance := inTerms setHigh balance
      low := if setHigh then peerSide else side
      high := if setHigh then side else peerSide
      lowNode := lowNode
      highNode := highNode }
  .ok (adjustOwnerCount (view.setLine key line) dst 1)

/-- `trustDelete`. -/
def trustDelete (key : LineKey) (line : RippleState) : Except Ter View := do
  let view ← view.dirRemove key.low line.lowNode (env.lineIndex key) false
  let view ← view.dirRemove key.high line.highNode (env.lineIndex key) false
  .ok { view with line := Function.update view.line key none }

end

/-- `QUALITY_ONE`. -/
def qualityOne : Nat := 1000000000

/-- `isTrustDefault` for one side. `lsfDefaultRipple` is looked for in the flags of the line, where
its bit, `0x00800000`, means `lsfHighFreeze`. -/
def isTrustDefault (high : Bool) (line : RippleState) : Bool :=
  let side := line.side high
  decide (side.freeze = false ∧ ¬ (line.high.freeze = true ∧ side.noRipple = true) ∧
    line.balance = 0 ∧ line.lockedBalance = none ∧ side.limit = 0 ∧
    (side.qualityIn = 0 ∨ side.qualityIn = qualityOne) ∧
    (side.qualityOut = 0 ∨ side.qualityOut = qualityOne))

end Xahau.Token
