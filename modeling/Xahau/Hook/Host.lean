import Xahau.Data.Dialogue
import Xahau.Hook.BaseFee

/-! # The machine that runs hooks (`applyHook.cpp`)

A hook is a program that calls the functions of the hook API and goes on by what they return and
write to its memory. Some ask the node on which the hook runs: for its open ledger, its database of
transactions, its hash router and its log level. These are modelled, and those of states, slots and
emission. The others are functions of the ledger, the transaction, the context and the memory. -/

namespace Xahau.Hook

open Checked

/-! ## Nodes -/

/-- What is local to a node. -/
structure Node where
  /-- `openLedger().current()`. -/
  openLedger : View
  /-- `MasterTransaction::fetch`: the transactions that the node knows. -/
  transactions : UInt256 → Option Blob
  /-- `HashRouter::getFlags`. -/
  routerFlags : UInt256 → Nat
  /-- The log level is `trace`. -/
  traceLog : Bool

/-- What is hashed for a nonce. -/
structure NonceArgs where
  transactionID : UInt256
  /-- A `uint16_t`. -/
  counter : Nat
  account : AccountID
  hookHash : UInt256
  /-- A `uint32_t`. -/
  flags : Nat
  deriving DecidableEq

/-- What the functions use beside the node, the same on every node. -/
structure HostEnv where
  /-- The constructor of `STTx`, which throws if the bytes are no transaction. -/
  deserialize : Blob → Option STTx
  /-- `keylet::escrow`. -/
  escrowKey : AccountID → Nat → UInt256
  /-- The entry of the ledger that a serialized keylet names, in serialized form. -/
  readEntry : View → Blob → Option Blob
  /-- `sha512Half`, under the prefix of nonces. -/
  sha512Half : NonceArgs → UInt256
  /-- `STTx::checkSign`. -/
  checkSign : Rules → STTx → Bool
  /-- `preflight` of the transactor, without `preflight1` and `preflight2`. -/
  preflight : Rules → STTx → Ter

/-- The part of `ApplyContext` that hooks read. -/
structure ApplyContext where
  view : View
  tx : STTx

/-! ## Contexts -/

/-- A `SlotEntry`: an object in serialized form. -/
structure SlotEntry where
  data : Blob
  /-- It is an account identifier, whose serialized form begins with its length. -/
  isAccount : Bool
  deriving DecidableEq

/-- The part of `HookContext` and `HookResult` left to functions not modelled. -/
structure Scratch where
  slot : AList fun _ : Nat => SlotEntry
  /-- The slots that were cleared, oldest first. -/
  slotFree : List Nat
  slotCounter : Nat
  ledgerNonceCounter : Nat
  hookParamOverrides : ParamOverrides
  hookSkips : List UInt256
  executeAgainAsWeak : Bool

/-- `HookContext`. -/
structure RunContext extends HookContext, Scratch where
  hookCanEmit : UInt256
  hasCallback : Bool
  isStrong : Bool
  isCallback : Bool
  /-- A `uint8_t`. -/
  hookChainPosition : Nat
  /-- A `uint16_t`. -/
  emitNonceCounter : Nat
  /-- What `etxn_reserve` was called with, or minus one. -/
  expectedEtxnCount : Int
  /-- `nonce_used`: what `etxn_nonce` has returned, latest first. -/
  nonceUsed : List UInt256
  emittedTxn : List STTx

/-- The context in which a hook starts. -/
def RunContext.start (invocation : Invocation) (stateMap : HookStateMap) : RunContext where
  toHookContext := .ofHook invocation.hook stateMap
  slot := ∅
  slotFree := []
  slotCounter := 0
  ledgerNonceCounter := 0
  hookParamOverrides := invocation.hookParamOverrides
  hookSkips := []
  executeAgainAsWeak := false
  hookCanEmit := invocation.hookCanEmit
  hasCallback := invocation.hasCallback
  isStrong := invocation.isStrong
  isCallback := invocation.isCallback
  hookChainPosition := invocation.hookChainPosition % 256
  emitNonceCounter := 0
  expectedEtxnCount := -1
  nonceUsed := []
  emittedTxn := []

/-! ## Slots -/

/-- `max_slots`. -/
def maxSlots : Nat := 255

section

variable (env : HostEnv) (node : Node) (apply : ApplyContext) (memory : Memory)
  (writePtr writeLen readPtr readLen : Nat) (ctx : RunContext)

/-- `no_free_slots`. -/
def noFreeSlots : Bool := ctx.slot.entries.length = maxSlots

/-- The loop of `get_free_slot`, for as many rounds as there are slots. -/
def advanceSlot (slot : AList fun _ : Nat => SlotEntry) : (rounds : Nat) → Nat → Nat
  | 0, counter => counter
  | rounds + 1, counter =>
    if counter + 1 ∈ slot ∧ counter + 1 ≤ maxSlots then advanceSlot slot rounds (counter + 1)
    else counter + 1

/-- `get_free_slot`: a slot that was cleared, or else the next that is free. -/
def getFreeSlot : Option Nat × RunContext :=
  match ctx.slotFree with
  | slotInto :: slotFree => (some slotInto, { ctx with slotFree })
  | [] =>
    let slotCounter := advanceSlot ctx.slot (maxSlots + 1) ctx.slotCounter
    (if maxSlots < slotCounter then none else some slotCounter, { ctx with slotCounter })

section

variable (view : View) (memory : Memory) (readPtr readLen slotInto : Nat)

/-- An object is put into a slot; zero stands for one that is free. -/
def placeSlot (entry : SlotEntry) (ctx : RunContext) : Except HookReturnCode Int × RunContext :=
  if slotInto ≠ 0 then (.ok slotInto, { ctx with slot := ctx.slot.insert slotInto entry })
  else
    match getFreeSlot ctx with
    | (none, ctx) => (.error .noFreeSlots, ctx)
    | (some found, ctx) => (.ok found, { ctx with slot := ctx.slot.insert found entry })

/-- What `slot_set` loads: a ledger entry, or a transaction the node knows. -/
def loadSlot : Option Blob :=
  if readLen = 34 then
    if fromVoid memory (readPtr + 2) = (.zero : UInt256) then none
    else env.readEntry view (memory.slice readPtr readLen)
  else node.transactions (fromVoid memory readPtr)

/-- `slot_set`. -/
def slotSet (ctx : RunContext) : Except HookReturnCode Int × RunContext :=
  if notInBounds memory readPtr readLen then (.error .outOfBounds, ctx)
  else if (readLen ≠ 32 ∧ readLen ≠ 34) ∨ maxSlots < slotInto then (.error .invalidArgument, ctx)
  else if slotInto = 0 ∧ noFreeSlots ctx = true then (.error .noFreeSlots, ctx)
  else
    match loadSlot env node view memory readPtr readLen with
    | none => (.error .doesntExist, ctx)
    | some data => placeSlot slotInto ⟨data, false⟩ ctx

end

/-- `slot_clear`. -/
def slotClear (slotNo : Nat) (ctx : RunContext) : Except HookReturnCode Int × RunContext :=
  if slotNo ∈ ctx.slot then
    (.ok 1, { ctx with slot := ctx.slot.erase slotNo, slotFree := ctx.slotFree ++ [slotNo] })
  else (.error .doesntExist, ctx)

/-- `slot`: the object, without the length that an account begins with. -/
def readSlot (slotNo : Nat) (ctx : RunContext) : Except HookReturnCode Int × Memory :=
  if writePtr = 0 ∧ writeLen ≠ 0 then (.error .invalidArgument, memory)
  else if writePtr ≠ 0 ∧ notInBounds memory writePtr writeLen then (.error .outOfBounds, memory)
  else if writePtr ≠ 0 ∧ writeLen < 1 then (.error .tooSmall, memory)
  else
    match ctx.slot.lookup slotNo with
    | none => (.error .doesntExist, memory)
    | some entry =>
      if entry.isAccount = true ∧ entry.data = [] then (.error .internalError, memory)
      else
        writeOrReturn memory writePtr writeLen
          (if entry.isAccount then entry.data.drop 1 else entry.data)

/-! ## Emission -/

/-- `max_emit`. -/
def maxEmit : Nat := 255

/-- `max_nonce`. -/
def maxNonce : Nat := 255

/-- `etxn_reserve`. -/
def etxnReserve (count : Nat) (ctx : RunContext) : Except HookReturnCode Int × RunContext :=
  if -1 < ctx.expectedEtxnCount then (.error .alreadySet, ctx)
  else if count < 1 then (.error .tooSmall, ctx)
  else if maxEmit < count then (.error .tooBig, ctx)
  else (.ok count, { ctx with expectedEtxnCount := count })

/-- The flags in a nonce tell the kind of the execution and the position of the hook, which might
run several times. -/
def nonceFlags (isStrong isCallback : Bool) (hookChainPosition : Nat) : Nat :=
  (if isStrong then 2 else 0) + (if isCallback then 1 else 0) + 4 * hookChainPosition

section

variable (tx : STTx) (memory : Memory) (writePtr writeLen : Nat)

/-- What is hashed for the next nonce. -/
def nonceArgs (ctx : RunContext) : NonceArgs where
  transactionID := tx.transactionID
  counter := ctx.emitNonceCounter
  account := ctx.account
  hookHash := ctx.hookHash
  flags := nonceFlags ctx.isStrong ctx.isCallback ctx.hookChainPosition

/-- `etxn_nonce`. -/
def etxnNonce (ctx : RunContext) : (Except HookReturnCode Int × Memory) × RunContext :=
  if notInBounds memory writePtr writeLen then ((.error .outOfBounds, memory), ctx)
  else if maxNonce < ctx.emitNonceCounter then ((.error .tooManyNonces, memory), ctx)
  else if writeLen < 32 then ((.error .tooSmall, memory), ctx)
  else
    let hash := env.sha512Half (nonceArgs tx ctx)
    ((.ok 32, memory.write writePtr hash.data),
      { ctx with
        emitNonceCounter := ctx.emitNonceCounter + 1
        nonceUsed := hash :: ctx.nonceUsed })

/-- The bytes of a number of a width, most significant first. -/
def bigEndian : (width : Nat) → Nat → Blob
  | 0, _ => []
  | width + 1, n => UInt8.ofNat (n / 256 ^ width) :: bigEndian width n

/-- The details of an emitted transaction, as far as the nonce. -/
def detailsBegin (burden : Nat) : Blob :=
  [0xED, 0x20, 0x2E] ++ bigEndian 4 (etxnGeneration tx) ++ [0x3D] ++ bigEndian 8 burden ++
    [0x5B] ++ tx.transactionID.data ++ [0x5C]

/-- The details of an emitted transaction after the nonce. -/
def detailsEnd : Blob :=
  [0x5D] ++ ctx.hookHash.data ++
    (if ctx.hasCallback then [0x8A, 0x14] ++ ctx.account.data else []) ++ [0xE1]

/-- `expected_size` of `etxn_details`. -/
def detailsSize : Nat := if ctx.hasCallback then 138 else 116

/-- `etxn_details`. What precedes the nonce is written even without one. -/
def etxnDetails (ctx : RunContext) : (Except HookReturnCode Int × Memory) × RunContext :=
  let burden := etxnBurden tx ctx.expectedEtxnCount.toNat
  if notInBounds memory writePtr writeLen then ((.error .outOfBounds, memory), ctx)
  else if writeLen < detailsSize ctx then ((.error .tooSmall, memory), ctx)
  else if ctx.expectedEtxnCount ≤ -1 then ((.error .prerequisiteNotMet, memory), ctx)
  else if burden < 1 ∨ 0x8000000000000000 ≤ burden then ((.error .feeTooLarge, memory), ctx)
  else
    let start := detailsBegin tx burden
    match etxnNonce env tx (memory.write writePtr start) (writePtr + start.length) 32 ctx with
    | ((.error _, memory), ctx) => ((.error .internalError, memory), ctx)
    | ((.ok _, memory), ctx) =>
      let upto := writePtr + start.length + 32
      ((.ok (upto + (detailsEnd ctx).length - writePtr : Nat),
        memory.write upto (detailsEnd ctx)), ctx)

/-- `Transactor::calculateBaseFee` in the open ledger of the node. -/
def openLedgerFee : Int :=
  calculateBaseFee (getTransactionalStakeHolders env.escrowKey tx node.openLedger) node.openLedger tx

end

/-- `etxn_fee_base`. -/
def etxnFeeBase : Except HookReturnCode Int :=
  if notInBounds memory readPtr readLen then .error .outOfBounds
  else if ctx.expectedEtxnCount ≤ -1 then .error .prerequisiteNotMet
  else
    match env.deserialize (memory.slice readPtr readLen) with
    | none => .error .invalidTxn
    | some tx => .ok (openLedgerFee env node tx)

/-- `SF_PRIVATE1`: the signature is bad. -/
def sfSigBad : Nat := 0x0100

/-- `SF_PRIVATE2`: the signature is good. -/
def sfSigGood : Nat := 0x0200

/-- `SF_EMITTED`: the transaction came out of the emission directory. -/
def sfEmitted : Nat := 0x4000

/-- `checkValidity` under `tapPREFLIGHT_EMIT` answers `SigBad`. -/
def isSigBad (env : HostEnv) (node : Node) (rules : Rules) (tx : STTx) : Bool :=
  let flags := node.routerFlags tx.transactionID
  if rules.enabled .featureHooks = true ∧ tx.isEmittedTxn = true then tx.txnSignature.isSome
  else if flags &&& sfSigBad ≠ 0 then true
  else if flags &&& sfSigGood ≠ 0 then false
  else !env.checkSign rules tx

section

variable (rules : Rules) (tx : STTx)

/-- `preflight1` under `tapPREFLIGHT_EMIT`, for an emitted transaction. -/
def preflight1 : Ter :=
  if tx.ticketSequence ≠ none ∧ rules.enabled .featureTicketBatch = false then .temMALFORMED
  else if tx.transactionID = .zero then .temINVALID
  else if tx.account = .zero then .temBAD_SRC_ACCOUNT
  else if tx.fee < 0 ∨ initialXrp < tx.fee then .temBAD_FEE
  else if rules.enabled .featureHooks = true ∧
      (node.routerFlags tx.transactionID &&& sfEmitted ≠ 0 ∨ true) then
    if tx.ticketSequence ≠ none ∧ tx.accountTxnID ≠ none then .temINVALID else .tesSUCCESS
  -- a signing key that is not empty is all zeros, and so of no known type
  else if tx.signingPubKey ≠ [] then .temBAD_SIGNATURE
  else if tx.ticketSequence ≠ none ∧ tx.accountTxnID ≠ none then .temINVALID
  else .tesSUCCESS

/-- `preflight` under `tapPREFLIGHT_EMIT`. -/
def preflightEmit : Ter :=
  if (preflight1 node rules tx).isTesSuccess = false then preflight1 node rules tx
  else if (env.preflight rules tx).isTesSuccess = false then env.preflight rules tx
  else if isSigBad env node rules tx then .temINVALID
  else .tesSUCCESS

/-- The call of `emit` for a transaction that was read from the memory. -/
def emitCall (ctx : RunContext) : EmitCall where
  tx
  expectedEtxnCount := ctx.expectedEtxnCount
  nonceUsed := ctx.nonceUsed
  minfee := openLedgerFee env node tx
  -- the status of a `Transaction` is `NEW` once it is made
  isNew := true
  preflight := preflightEmit env node rules tx

end

/-- Who calls `emit`. -/
def emitContext : EmitContext :=
  ⟨apply.tx, ctx.toHookId, ctx.hookCanEmit, apply.view.seq⟩

/-- The part of `emit` that reads the transaction from the memory. -/
def readEmit : Except HookReturnCode STTx := do
  failIf (notInBounds memory readPtr readLen) .outOfBounds
  failIf (notInBounds memory writePtr writeLen) .outOfBounds
  failIf (writeLen < 32) .tooSmall
  failIf (ctx.expectedEtxnCount < 0) .prerequisiteNotMet
  failIf (ctx.expectedEtxnCount ≤ ctx.emittedTxn.length) .tooManyEmittedTxn
  match env.deserialize (memory.slice readPtr readLen) with
  | none => .error .emissionFailure
  | some tx => .ok tx

/-- `emit`. -/
def emitTxn : (Except HookReturnCode Int × Memory) × RunContext :=
  match readEmit env memory writePtr writeLen readPtr readLen ctx with
  | .error code => ((.error code, memory), ctx)
  | .ok tx =>
    match emit (emitContext apply ctx) ctx.emittedTxn.length
        (emitCall env node apply.view.rules tx ctx) with
    | .error code => ((.error code, memory), ctx)
    | .ok _ =>
      ((.ok 32, memory.write writePtr tx.transactionID.data),
        { ctx with emittedTxn := ctx.emittedTxn ++ [tx] })

/-! ## Tracing -/

/-- `trace`, `trace_num` and `trace_float` write to the log at level `trace`. -/
def traced (inBounds : Bool) : Except HookReturnCode Int :=
  if inBounds = false then .error .outOfBounds
  else if node.traceLog = false then .ok 0
  -- here the line is written to the log
  else .ok 0

end

/-! ## Calls -/

/-- A function of the hook API with its arguments. -/
inductive ApiFunction : Type where
  /-- A function of states. -/
  | states (call : Call)
  | etxnReserve (count : Nat)
  | etxnNonce (writePtr writeLen : Nat)
  | etxnDetails (writePtr writeLen : Nat)
  | etxnFeeBase (readPtr readLen : Nat)
  | emit (writePtr writeLen readPtr readLen : Nat)
  | slotSet (readPtr readLen slotInto : Nat)
  | slotClear (slotNo : Nat)
  | slot (writePtr writeLen slotNo : Nat)
  | trace (mreadPtr mreadLen dreadPtr dreadLen asHex : Nat)
  | traceNum (readPtr readLen : Nat) (number : Int)
  | traceFloat (readPtr readLen : Nat) (float1 : Int)
  /-- Any other function of the ledger, the transaction, the context and memory. -/
  | other (f : ApplyContext → RunContext → Memory → (Int × Memory) × Scratch)

/-- The number that a function returns. -/
def returnValue : Except HookReturnCode Int → Int
  | .ok value => value
  | .error code => code.code

/-- What a function of states returns and writes. -/
def statesReply (view : View) (memory : Memory) (call : Call) (ctx : HookContext) :
    Except HookReturnCode Int × Memory :=
  match call with
  | .state writePtr writeLen kreadPtr kreadLen =>
    let reply := state view memory writePtr writeLen kreadPtr kreadLen ctx
    (reply.1, reply.2.1)
  | .stateForeign args =>
    let reply := stateForeign view memory args ctx
    (reply.1, reply.2.1)
  | .stateSet readPtr readLen kreadPtr kreadLen =>
    ((stateSet view memory readPtr readLen kreadPtr kreadLen ctx).1, memory)
  | .stateForeignSet args => ((stateForeignSet view memory args ctx).1, memory)

section

variable (env : HostEnv) (node : Node) (apply : ApplyContext) (program : Program) (ctx : RunContext)

/-- A call: what it returns, the memory after it, and the context that it leaves. -/
def hostCall (call : Memory × ApiFunction) : (Int × Memory) × RunContext :=
  let memory := call.1
  -- there is no memory to work on
  if memory = [] then ((HookReturnCode.internalError.code, memory), ctx)
  else
    match call.2 with
    | .states call =>
      let reply := statesReply apply.view memory call ctx.toHookContext
      ((returnValue reply.1, reply.2),
        { ctx with
          toHookContext :=
            (ApiCall.mk ctx.toHookId apply.view memory call).run ctx.toHookContext })
    | .etxnReserve count =>
      let reply := etxnReserve count ctx
      ((returnValue reply.1, memory), reply.2)
    | .etxnNonce writePtr writeLen =>
      let reply := etxnNonce env apply.tx memory writePtr writeLen ctx
      ((returnValue reply.1.1, reply.1.2), reply.2)
    | .etxnDetails writePtr writeLen =>
      let reply := etxnDetails env apply.tx memory writePtr writeLen ctx
      ((returnValue reply.1.1, reply.1.2), reply.2)
    | .etxnFeeBase readPtr readLen =>
      ((returnValue (etxnFeeBase env node memory readPtr readLen ctx), memory), ctx)
    | .emit writePtr writeLen readPtr readLen =>
      let reply := emitTxn env node apply memory writePtr writeLen readPtr readLen ctx
      ((returnValue reply.1.1, reply.1.2), reply.2)
    | .slotSet readPtr readLen slotInto =>
      let reply := slotSet env node apply.view memory readPtr readLen slotInto ctx
      ((returnValue reply.1, memory), reply.2)
    | .slotClear slotNo =>
      let reply := slotClear slotNo ctx
      ((returnValue reply.1, memory), reply.2)
    | .slot writePtr writeLen slotNo =>
      let reply := readSlot memory writePtr writeLen slotNo ctx
      ((returnValue reply.1, reply.2), ctx)
    | .trace mreadPtr mreadLen dreadPtr dreadLen _ =>
      ((returnValue (traced node (decide (¬ notInBounds memory mreadPtr mreadLen ∧
        ¬ notInBounds memory dreadPtr dreadLen))), memory), ctx)
    | .traceNum readPtr readLen _ | .traceFloat readPtr readLen _ =>
      ((returnValue (traced node (decide (¬ notInBounds memory readPtr readLen))), memory), ctx)
    | .other f =>
      let reply := f apply ctx memory
      (reply.1, { ctx with toScratch := reply.2 })

/-- How a hook ends. -/
structure Exit where
  exitType : ExitType
  /-- It ended in an exception. -/
  threw : Bool
  deriving DecidableEq

instance : Inhabited Exit := ⟨⟨.rollback, false⟩⟩

/-- A hook: what it does next depends on what was returned and written so far. -/
abbrev Program := Dialogue (Memory × ApiFunction) (Int × Memory) Exit

/-- A run of a hook: what was returned and written, how it ended, and the context. -/
def runHook : List (Int × Memory) × Exit × RunContext :=
  program.run (hostCall env node apply) ctx

end

end Xahau.Hook
