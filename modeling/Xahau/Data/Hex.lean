import Mathlib

/-! # Hexadecimal text

Byte strings written as two digits a byte, high half first and in upper case, and the reader that
accepts both cases. -/

namespace Hex

/-- The value of a hexadecimal digit of either case. -/
def value? (c : Char) : Option Nat :=
  if '0' ≤ c ∧ c ≤ '9' then some (c.toNat - '0'.toNat)
  else if 'a' ≤ c ∧ c ≤ 'f' then some (c.toNat - 'a'.toNat + 10)
  else if 'A' ≤ c ∧ c ≤ 'F' then some (c.toNat - 'A'.toNat + 10)
  else none

/-- The upper-case digit of a value below sixteen. -/
def digit (n : Nat) : Char :=
  if n < 10 then Char.ofNat ('0'.toNat + n) else Char.ofNat ('A'.toNat + (n - 10))

/-- The digits of a byte string. -/
def encode (bytes : List UInt8) : List Char :=
  bytes.flatMap fun b => [digit (b.toNat / 16), digit (b.toNat % 16)]

/-- Read pairs of digits back; anything else is refused. -/
def decode : List Char → Option (List UInt8)
  | [] => some []
  | [_] => none
  | high :: low :: rest => do
    let h ← value? high
    let l ← value? low
    let bytes ← decode rest
    some (UInt8.ofNat (16 * h + l) :: bytes)

@[simp] theorem value?_digit {n : Nat} (h : n < 16) : value? (digit n) = some n := by
  interval_cases n <;> decide

@[simp] theorem utf8Size_digit {n : Nat} (h : n < 16) : (digit n).utf8Size = 1 := by
  interval_cases n <;> decide

@[simp] theorem decode_encode (bytes : List UInt8) : decode (encode bytes) = some bytes := by
  induction bytes with
  | nil => rfl
  | cons b bytes ih =>
    have hb := b.toNat_lt
    have hhigh : b.toNat / 16 < 16 := by omega
    have hlow : b.toNat % 16 < 16 := Nat.mod_lt _ (by decide)
    have hjoin : UInt8.ofNat (16 * (b.toNat / 16) + b.toNat % 16) = b := by
      rw [Nat.div_add_mod, UInt8.ofNat_toNat]
    have hcons : encode (b :: bytes)
        = digit (b.toNat / 16) :: digit (b.toNat % 16) :: encode bytes := rfl
    rw [hcons, decode, value?_digit hhigh, value?_digit hlow, ih]
    exact congrArg (fun a => some (a :: bytes)) hjoin

theorem utf8ByteSize_encode (bytes : List UInt8) :
    (String.ofList (encode bytes)).utf8ByteSize = 2 * bytes.length := by
  induction bytes with
  | nil => rfl
  | cons b bytes ih =>
    have hb := b.toNat_lt
    have hcons : encode (b :: bytes)
        = digit (b.toNat / 16) :: digit (b.toNat % 16) :: encode bytes := rfl
    rw [hcons, String.ofList_cons, String.ofList_cons, String.utf8ByteSize_append,
      String.utf8ByteSize_append, String.utf8ByteSize_singleton, String.utf8ByteSize_singleton,
      utf8Size_digit (by omega), utf8Size_digit (Nat.mod_lt _ (by decide)), ih, List.length_cons]
    omega

end Hex
