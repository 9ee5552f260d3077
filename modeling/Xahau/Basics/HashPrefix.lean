import Mathlib

/-! # Hash prefixes (`HashPrefix.h`)

Every kind of object is hashed under a prefix of its own: three letters and a zero byte. -/

namespace Xahau

/-- `HashPrefix`. -/
inductive HashPrefix : Type where
  | transactionID | txNode | leafNode | innerNode | ledgerMaster | txSign | txMultiSign
  | validation | proposal | manifest | paymentChannelClaim | shardInfo | emitTxnNonce | hookNonce
  | hookDefinition
  deriving DecidableEq, Repr

namespace HashPrefix

/-- The three letters of a prefix. -/
def letters : HashPrefix → Char × Char × Char
  | .transactionID => ('T', 'X', 'N')
  | .txNode => ('S', 'N', 'D')
  | .leafNode => ('M', 'L', 'N')
  | .innerNode => ('M', 'I', 'N')
  | .ledgerMaster => ('L', 'W', 'R')
  | .txSign => ('S', 'T', 'X')
  | .txMultiSign => ('S', 'M', 'T')
  | .validation => ('V', 'A', 'L')
  | .proposal => ('P', 'R', 'P')
  | .manifest => ('M', 'A', 'N')
  | .paymentChannelClaim => ('C', 'L', 'M')
  | .shardInfo => ('S', 'H', 'D')
  | .emitTxnNonce => ('E', 'T', 'X')
  | .hookNonce => ('N', 'C', 'E')
  | .hookDefinition => ('W', 'S', 'M')

/-- The bytes of a prefix as they enter a hash (`make_hash_prefix`, big-endian). -/
def bytes (p : HashPrefix) : List UInt8 :=
  [p.letters.1.toUInt8, p.letters.2.1.toUInt8, p.letters.2.2.toUInt8, 0]

end HashPrefix

end Xahau
