import Xahau.Data.Hex

/-! # Fixed-width unsigned integers (`base_uint.h`, `strHex.h`)

Values of `base_uint` are used as opaque byte strings of a fixed width: account identifiers,
hashes and keys. The invariant is the width. -/

namespace Xahau

/-- A `base_uint` of `n` bytes. -/
structure BaseUInt (n : Nat) where
  /-- The bytes, most significant first. -/
  data : List UInt8
  data_length : data.length = n
  deriving DecidableEq

/-- A 256-bit hash or key. -/
abbrev UInt256 := BaseUInt 32

/-- A 160-bit account identifier. -/
abbrev AccountID := BaseUInt 20

instance : LawfulBEq UInt256 := inferInstance

instance : LawfulBEq AccountID := inferInstance

instance lawfulBEqBytes : LawfulBEq (List UInt8) := inferInstance

namespace BaseUInt

variable {n : Nat}

@[ext] theorem ext {a b : BaseUInt n} (h : a.data = b.data) : a = b := by
  cases a
  cases b
  simpa using h

/-- There are finitely many values of a width. -/
instance : Finite (BaseUInt n) :=
  Finite.of_injective (β := List.Vector UInt8 n) (fun d => ⟨d.data, d.data_length⟩)
    fun _ _ h => ext (congrArg Subtype.val h)

/-- `beast::zero`. -/
def zero : BaseUInt n := ⟨List.replicate n 0, List.length_replicate⟩

/-- The value whose last byte is `b` and whose other bytes are zero. -/
def ofByte (b : UInt8) : BaseUInt (n + 1) := ⟨List.replicate n 0 ++ [b], by simp⟩

/-- The number that the bytes encode. -/
def toNat (d : BaseUInt n) : Nat := d.data.foldl (fun n b => n * 256 + b.toNat) 0

/-- `base_uint::parseHex`: the single digit `0`, or exactly two digits a byte. -/
def parseHex (text : String) : Option (BaseUInt n) :=
  if text = "0" then some zero
  else if text.utf8ByteSize ≠ 2 * n then none
  else do
    let bytes ← Hex.decode text.toList
    if h : bytes.length = n then some ⟨bytes, h⟩ else none

end BaseUInt

/-- `strHex`: the upper-case hexadecimal text of a byte string. -/
def strHex (bytes : List UInt8) : String := String.ofList (Hex.encode bytes)

theorem strHex_ne_zero (bytes : List UInt8) : strHex bytes ≠ "0" := by
  intro h
  have hsize := congrArg String.utf8ByteSize h
  rw [strHex, Hex.utf8ByteSize_encode] at hsize
  have hone : "0".utf8ByteSize = 1 := by decide
  omega

@[simp] theorem BaseUInt.parseHex_strHex {n : Nat} (d : BaseUInt n) :
    BaseUInt.parseHex (strHex d.data) = some d := by
  have hsize : (strHex d.data).utf8ByteSize = 2 * n := by
    rw [strHex, Hex.utf8ByteSize_encode, d.data_length]
  rw [parseHex, if_neg (strHex_ne_zero _), if_neg (by simp [hsize])]
  simp [strHex, d.data_length]

theorem BaseUInt.strHex_injective {n : Nat} {a b : BaseUInt n} (h : strHex a.data = strHex b.data) :
    a = b := by
  have hpar := congrArg (BaseUInt.parseHex (n := n)) h
  simpa using hpar

end Xahau
