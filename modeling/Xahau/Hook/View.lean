import Xahau.Basics.STTx
import Xahau.Ledger.Directory

/-! # The ledger

The entries of the ledger that hooks and transactors use: account roots, hooks and their definitions,
hook states and the directories of their namespaces, and the transactions that hooks have emitted. -/

namespace Xahau.Hook

/-- An account root, as far as needed. The flags are fields. -/
structure AccountRoot where
  /-- `sfBalance`, in drops. -/
  balance : Int
  ownerCount : Nat := 0
  /-- `sfHookNamespaces`; absent if there are none. -/
  hookNamespaces : List UInt256 := []
  /-- `sfHookStateCount`, when present. -/
  hookStateCount : Option Nat := none
  /-- `lsfTshCollect`. -/
  tshCollect : Bool := false
  sequence : Nat
  /-- `sfAccountTxnID`, when present. -/
  accountTxnID : Option UInt256 := none
  /-- `sfImportSequence`, when present. -/
  importSequence : Option Nat := none
  /-- `sfRegularKey`, when present. -/
  regularKey : Option AccountID := none
  /-- `sfAccountIndex`, when present. -/
  accountIndex : Option Nat := none
  governanceFlags : Option UInt256 := none
  governanceMarks : Option UInt256 := none
  mintedNFTokens : Option Nat := none
  burnedNFTokens : Option Nat := none
  firstNFTokenSequence : Option Nat := none
  /-- `lsfDisableMaster`. -/
  disableMaster : Bool := false
  /-- `lsfPasswordSpent`. -/
  passwordSpent : Bool := false
  /-- `lsfRequireDestTag`. -/
  requireDestTag : Bool := false
  /-- `lsfDepositAuth`. -/
  depositAuth : Bool := false
  /-- `lsfDisallowIncomingRemit`. -/
  disallowIncomingRemit : Bool := false
  /-- `lsfURITokenIssuer`. -/
  uriTokenIssuer : Bool := false
  /-- `sfRewardLgrFirst`, when present. -/
  rewardLgrFirst : Option Nat := none
  /-- `sfRewardLgrLast`, when present. -/
  rewardLgrLast : Option Nat := none
  /-- `sfRewardAccumulator`, when present. -/
  rewardAccumulator : Option Nat := none
  deriving DecidableEq

/-- An entry of `sfHookGrants`. -/
structure HookGrant where
  hookHash : UInt256
  /-- `sfAuthorize`, when present. -/
  authorize : Option AccountID
  deriving DecidableEq

/-- Names and values of parameters. -/
abbrev ParameterMap := AList fun _ : Blob => Blob

/-- Parameters by the hash of the hook for which they are. -/
abbrev ParamOverrides := AList fun _ : UInt256 => ParameterMap

/-- An entry of `sfHooks`; its fields are optional. -/
structure HookObj where
  hookHash : Option UInt256
  hookNamespace : Option UInt256
  hookGrants : Option (List HookGrant)
  hookOn : Option UInt256
  hookCanEmit : Option UInt256
  flags : Option Nat
  /-- `sfHookParameters`, a list of names with their values. -/
  hookParameters : Option (List (Blob × Blob))
  deriving DecidableEq

structure HookDefinition where
  hookNamespace : UInt256
  hookOn : UInt256
  hookCanEmit : Option UInt256
  flags : Nat
  hookParameters : Option (List (Blob × Blob))
  createCode : Blob
  /-- `sfReferenceCount`. -/
  referenceCount : Nat
  /-- `sfFee`, in drops. -/
  fee : Int
  /-- `sfHookCallbackFee`, present if the hook has a callback. -/
  hookCallbackFee : Option Int
  deriving DecidableEq

structure HookRegistry where
  /-- The `sfHooks` of `keylet::hook`. -/
  hooks : AccountID → Option (List HookObj)
  /-- `keylet::hookDefinition`. -/
  hookDefinition : UInt256 → Option HookDefinition

def noHooks : HookRegistry := ⟨fun _ => none, fun _ => none⟩

/-- The namespace of a hook: its own, or else that of its definition. -/
def HookRegistry.namespaceOf (registry : HookRegistry) (hookObj : HookObj) : Option UInt256 :=
  match hookObj.hookNamespace with
  | some ns => some ns
  | none => do
    let hookHash ← hookObj.hookHash
    let hookDef ← registry.hookDefinition hookHash
    pure hookDef.hookNamespace

/-- A hook state. -/
structure HookState where
  /-- `sfHookStateData`. -/
  data : Blob
  /-- `sfOwnerNode`: the page of the directory that has the key. -/
  ownerNode : Nat
  deriving DecidableEq

/-- An emitted transaction that waits to be applied. -/
structure EmittedTxn where
  /-- `sfEmittedTxn`. -/
  tx : STTx
  ownerNode : Nat
  deriving DecidableEq

structure Escrow where
  amount : Amount
  account : AccountID
  destination : AccountID
  deriving DecidableEq

structure PayChan where
  amount : Amount
  /-- What was paid of it. -/
  balance : Int
  account : AccountID
  destination : AccountID
  deriving DecidableEq

structure Check where
  account : AccountID
  destination : AccountID
  deriving DecidableEq

/-- A URI token. -/
structure URIToken where
  owner : AccountID
  issuer : AccountID
  /-- `lsfBurnable`: the issuer can burn it. -/
  burnable : Bool
  destination : Option AccountID := none
  deriving DecidableEq

structure NFTokenOffer where
  nfTokenID : UInt256
  owner : AccountID
  destination : Option AccountID := none
  deriving DecidableEq

/-- The fields of `keylet::fees` that the modelled code reads. -/
structure FeeSettings where
  reserveBaseDrops : Option Amount := none
  reserveIncrementDrops : Option Amount := none
  reserveBase : Option Nat := none
  reserveIncrement : Option Nat := none
  xahauActivationLgrSeq : Option Nat := none
  accountCount : Option Nat := none
  deriving DecidableEq

/-- The `ApplyView` in which transactions are applied and hooks run. -/
structure View extends HookRegistry where
  rules : Rules
  fees : Fees
  /-- `ApplyView::open`: not the view of a ledger that is being closed. -/
  isOpen : Bool
  /-- The number of the ledger. -/
  seq : Nat
  /-- The total drops in the header of the ledger. -/
  drops : Int := 0
  parentCloseTime : Nat := 0
  /-- `txExists`: the transactions in the ledger. -/
  txs : List UInt256
  /-- `keylet::account`. -/
  account : AccountID → Option AccountRoot
  /-- Whether `keylet::ticket` exists for an account and a number. -/
  ticket : AccountID → Nat → Bool
  /-- `keylet::hookState` for an account, a key and a namespace. -/
  hookState : AccountID → UInt256 → UInt256 → Option HookState
  /-- `keylet::hookStateDir`. It has the keys of the states; those of the entries are hashes of
  account, key and namespace. -/
  hookStateDir : AccountID → UInt256 → Directory
  /-- `keylet::emittedTxn`. -/
  emittedTxn : UInt256 → Option EmittedTxn
  /-- `keylet::emittedDir`, by the identifiers of the transactions. -/
  emittedDir : Directory
  /-- `keylet::fees`. -/
  feeSettings : Option FeeSettings := none
  /-- `sfImportSequence` of `keylet::import_vlseq`, by the key of the list. -/
  importVLSeq : Blob → Option Nat := fun _ => none
  /-- `sfImportVLKeys` of `keylet::UNLReport`. -/
  importVLKeys : Option (List Blob) := none
  /-- Whether `keylet::signers` exists. -/
  signers : AccountID → Bool := fun _ => false
  /-- Whether `keylet::depositPreauth` exists, for the owner and whom it authorizes. -/
  depositPreauth : AccountID → AccountID → Bool := fun _ _ => false
  /-- The escrows, by their keys, and in the same way payment channels and so on. -/
  escrow : UInt256 → Option Escrow := fun _ => none
  payChan : UInt256 → Option PayChan := fun _ => none
  check : UInt256 → Option Check := fun _ => none
  uriToken : UInt256 → Option URIToken := fun _ => none
  nftOffer : UInt256 → Option NFTokenOffer := fun _ => none
  /-- `nft::findToken`: whether an account owns a token. -/
  findToken : AccountID → UInt256 → Bool := fun _ _ => false

section

variable (account : AccountID → Option AccountRoot) (acc : AccountID)

/-- The import sequences of the accounts that exist. -/
def importsOf : Option (Option Nat) :=
  (account acc).map AccountRoot.importSequence

/-- The import sequences of the accounts of a ledger. -/
def View.imports (view : View) : AccountID → Option (Option Nat) := importsOf view.account

/-- The import sequence and the balance of an account. -/
def AccountRoot.held (sle : AccountRoot) : Option Nat × Int := (sle.importSequence, sle.balance)

/-- The import sequences and the balances of the accounts that exist. -/
def heldOf : Option (Option Nat × Int) :=
  (account acc).map AccountRoot.held

end

/-- The import sequences and the balances of the accounts of a ledger. -/
def View.held (view : View) : AccountID → Option (Option Nat × Int) := heldOf view.account

variable {account account' : AccountID → Option AccountRoot}

theorem importsOf_of_heldOf
    (h : heldOf account = heldOf account') : importsOf account = importsOf account' := by
  have hfst : ∀ account, importsOf account = fun acc => (heldOf account acc).map Prod.fst := by
    intro account
    funext acc
    simp only [importsOf, heldOf, Option.map_map]
    rfl
  rw [hfst, hfst, h]

/-- An account root without the fields that the hook states of the account change. -/
def AccountRoot.kept (sle : AccountRoot) : AccountRoot :=
  { sle with ownerCount := 0, hookNamespaces := [], hookStateCount := none }

/-- The account roots without the fields that hook states change. -/
def keptOf (account : AccountID → Option AccountRoot) (acc : AccountID) : Option AccountRoot :=
  (account acc).map AccountRoot.kept

theorem map_of_keptOf {α : Type*}
    {f : AccountRoot → α} (hf : ∀ sle, f sle.kept = f sle) (h : keptOf account = keptOf account')
    (acc : AccountID) : (account acc).map f = (account' acc).map f := by
  have hmap : ∀ account, (account acc).map f = (keptOf account acc).map f := by
    intro account
    unfold keptOf
    rw [Option.map_map]
    congr 1
    funext sle
    exact (hf sle).symm
  rw [hmap account, hmap account', h]

theorem heldOf_of_keptOf
    (h : keptOf account = keptOf account') : heldOf account = heldOf account' :=
  funext fun acc => map_of_keptOf (fun _ => rfl) h acc

/-- `hook_return_code`: the codes that the modelled functions return. -/
inductive HookReturnCode : Type where
  | outOfBounds | internalError | tooBig | tooSmall | doesntExist | noFreeSlots | invalidArgument
  | alreadySet | prerequisiteNotMet | feeTooLarge | emissionFailure | tooManyNonces
  | tooManyEmittedTxn | notAuthorized | previousFailurePreventsRetry | invalidTxn
  | reserveInsufficient | tooManyStateModifications | tooManyNamespaces
  /-- The number of a result, which one function returns as a code. -/
  | tefINTERNAL
  deriving DecidableEq, Repr

def HookReturnCode.code : HookReturnCode → Int
  | outOfBounds => -1
  | internalError => -2
  | tooBig => -3
  | tooSmall => -4
  | doesntExist => -5
  | noFreeSlots => -6
  | invalidArgument => -7
  | alreadySet => -8
  | prerequisiteNotMet => -9
  | feeTooLarge => -10
  | emissionFailure => -11
  | tooManyNonces => -12
  | tooManyEmittedTxn => -13
  | notAuthorized => -34
  | previousFailurePreventsRetry => -35
  | invalidTxn => -37
  | reserveInsufficient => -38
  | tooManyStateModifications => -44
  | tooManyNamespaces => -45
  | tefINTERNAL => -192

end Xahau.Hook
