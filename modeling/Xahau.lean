import Xahau.Import.ProofSoundness
import Xahau.Import.Quorum
import Xahau.Amendment.Activation
import Xahau.Hook.SharedCache
import Xahau.Transactor.Mints
import Xahau.Transactor.Imports
import Xahau.Hook.Generations
import Xahau.Transactor.Nonces
import Xahau.Ledger.Histories
import Xahau.Govern.Quorum
import Xahau.Token.Closing
import Xahau.Token.LockCount
import Xahau.Token.Reserve
import Xahau.SetHook.Effective
import Xahau.SetHook.Namespaces
import Xahau.Transactor.RewardTime
import Xahau.URIToken.Ownership
import Xahau.Token.PaymentSandbox
import Xahau.Validator.ManifestCache
import Xahau.TxQ.FeeMetrics
import Xahau.Ledger.SkipList
import Xahau.Rdb.AccountTx
import Xahau.Guard.WorstCase
import Xahau.Guard.Prices
import Xahau.Hook.FeeArithmetic
import Xahau.Basics.Serializer
import Xahau.Basics.Number
import Xahau.Hook.Float
