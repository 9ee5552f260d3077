import Xahau.Basics.Protocol
import Xahau.Data.Checked

/-! # The prefixes of fields (`Serializer.cpp`)

A serialized field starts with its type and name, in one to three bytes, and a field of variable
length goes on with its length, in one to three bytes. The encoders and the decoders are separate
functions; here each pair is compared in both directions. -/

namespace Xahau.Serializer

open Checked

/-! ## Encoders -/

/-- `Serializer::addFieldID`, which asserts codes from 1 to 255. -/
def addFieldID (type name : ℕ) : Blob :=
  if type < 16 then
    if name < 16 then [.ofNat (type <<< 4 ||| name)]
    else [.ofNat (type <<< 4), .ofNat name]
  else if name < 16 then [.ofNat name, .ofNat type]
  else [0, .ofNat type, .ofNat name]

def lengthBytes (length : ℤ) : Blob :=
  if length ≤ 192 then [.ofInt length]
  else if length ≤ 12480 then
    let length := length - 193
    [193 + .ofInt (length >>> (8 : ℕ)), .ofInt length]
  else
    let length := length - 12481
    [241 + .ofInt (length >>> (16 : ℕ)), .ofInt (length >>> (8 : ℕ)), .ofInt length]

/-- `Serializer::addEncoded`. -/
def addEncoded (length : ℤ) : Except String Blob :=
  if length ≤ 918744 then .ok (lengthBytes length) else .error "lenlen"

/-! ## Decoders -/

/-- `SerialIter::get8`, on the bytes that remain. -/
def get8 : Blob → Except String (ℕ × Blob)
  | [] => .error "invalid SerialIter get8"
  | byte :: rest => .ok (byte.toNat, rest)

/-- A code that is not in the first byte. -/
def getUncommon (text : String) (code : ℕ) (bytes : Blob) : Except String (ℕ × Blob) := do
  if code ≠ 0 then .ok (code, bytes)
  else
    let (code, bytes) ← get8 bytes
    failIf (code < 16) (text ++ toString code)
    .ok (code, bytes)

/-- `SerialIter::getFieldID`. -/
def getFieldID (bytes : Blob) : Except String ((ℕ × ℕ) × Blob) := do
  let (byte, bytes) ← get8 bytes
  let (type, bytes) ← getUncommon "gFID: uncommon type out of range " (byte >>> 4) bytes
  let (name, bytes) ← getUncommon "gFID: uncommon name out of range " (byte &&& 15) bytes
  .ok ((type, name), bytes)

/-- `Serializer::decodeLengthLength`. -/
def decodeLengthLength (b1 : ℤ) : Except String ℕ :=
  if b1 < 0 then .error "b1<0"
  else if b1 ≤ 192 then .ok 1
  else if b1 ≤ 240 then .ok 2
  else if b1 ≤ 254 then .ok 3
  else .error "b1>254"

/-- `Serializer::decodeVLLength` of one byte. -/
def decodeVLLength (b1 : ℤ) : Except String ℤ := do
  failIf (b1 < 0) "b1<0"
  failIf (254 < b1) "b1>254"
  .ok b1

/-- `Serializer::decodeVLLength` of two bytes. -/
def decodeVLLength₂ (b1 b2 : ℤ) : Except String ℤ := do
  failIf (b1 < 193) "b1<193"
  failIf (240 < b1) "b1>240"
  .ok (193 + (b1 - 193) * 256 + b2)

/-- `Serializer::decodeVLLength` of three bytes. -/
def decodeVLLength₃ (b1 b2 b3 : ℤ) : Except String ℤ := do
  failIf (b1 < 241) "b1<241"
  failIf (254 < b1) "b1>254"
  .ok (12481 + (b1 - 241) * 65536 + b2 * 256 + b3)

/-- `SerialIter::getVLDataLength`. -/
def getVLDataLength (bytes : Blob) : Except String (ℤ × Blob) := do
  let (b1, bytes) ← get8 bytes
  let lenLen ← decodeLengthLength b1
  if lenLen = 1 then
    let datLen ← decodeVLLength b1
    .ok (datLen, bytes)
  else if lenLen = 2 then
    let (b2, bytes) ← get8 bytes
    let datLen ← decodeVLLength₂ b1 b2
    .ok (datLen, bytes)
  else
    let (b2, bytes) ← get8 bytes
    let (b3, bytes) ← get8 bytes
    let datLen ← decodeVLLength₃ b1 b2 b3
    .ok (datLen, bytes)

/-! ## Types and names -/

theorem get8_eq_ok {bytes rest : Blob} {byte : ℕ} :
    get8 bytes = .ok (byte, rest) ↔ byte < 256 ∧ bytes = UInt8.ofNat byte :: rest := by
  cases bytes with
  | nil => simp [get8]
  | cons b bytes =>
    simp only [get8, Except.ok.injEq, Prod.mk.injEq, List.cons.injEq]
    constructor
    · rintro ⟨rfl, rfl⟩
      exact ⟨b.toNat_lt, UInt8.ofNat_toNat.symm, rfl⟩
    · rintro ⟨hlt, rfl, rfl⟩
      exact ⟨UInt8.toNat_ofNat_of_lt' hlt, rfl⟩

/-- The part of a code in the first byte. -/
def common (code : ℕ) : ℕ := if code < 16 then code else 0

/-- The part of a code after the first byte. -/
def uncommon (code : ℕ) : Blob := if code < 16 then [] else [.ofNat code]

theorem common_lt (code : ℕ) : common code < 16 := by
  unfold common
  split <;> omega

theorem addFieldID_eq (type name : ℕ) :
    addFieldID type name =
      .ofNat (16 * common type + common name) :: (uncommon type ++ uncommon name) := by
  have hshift : type <<< 4 = 16 * type := by rw [Nat.shiftLeft_eq, mul_comm]
  unfold addFieldID common uncommon
  split <;> split
  · rw [← Nat.shiftLeft_add_eq_or_of_lt (i := 4) ‹_›, hshift]
    rfl
  · rw [hshift]
    rfl
  · rw [mul_zero, zero_add]
    rfl
  · rfl

theorem getUncommon_eq_ok {text : String} {code code' : ℕ} {bytes rest : Blob} (h : code < 16) :
    getUncommon text code bytes = .ok (code', rest) ↔
      (0 < code' ∧ code' < 256) ∧ code = common code' ∧ bytes = uncommon code' ++ rest := by
  unfold getUncommon
  split
  next hcode =>
    simp only [Except.ok.injEq, Prod.mk.injEq]
    constructor
    · rintro ⟨rfl, rfl⟩
      exact ⟨by omega, (if_pos h).symm, by rw [uncommon, if_pos h, List.nil_append]⟩
    · rintro ⟨-, rfl, rfl⟩
      have hlt : code' < 16 := by
        by_contra hle
        exact hcode (if_neg hle)
      exact ⟨if_pos hlt, by rw [uncommon, if_pos hlt, List.nil_append]⟩
  next hcode =>
    rw [not_not.mp hcode]
    simp only [bind_eq_ok, Prod.exists, get8_eq_ok, failIf_eq_ok, exists_const, Except.ok.injEq,
      Prod.mk.injEq]
    constructor
    · rintro ⟨_, _, ⟨hlt, rfl⟩, hle, rfl, rfl⟩
      exact ⟨by omega, (if_neg hle).symm, by rw [uncommon, if_neg hle, List.singleton_append]⟩
    · rintro ⟨⟨hpos, hlt⟩, hcommon, rfl⟩
      have hle : ¬ code' < 16 := fun h => hpos.ne (hcommon.trans (if_pos h))
      rw [uncommon, if_neg hle]
      exact ⟨_, _, ⟨hlt, rfl⟩, hle, rfl, rfl⟩

/-- **The decoder accepts what the encoder writes**, and nothing else. -/
theorem getFieldID_eq_ok {bytes rest : Blob} {type name : ℕ} :
    getFieldID bytes = .ok ((type, name), rest) ↔
      ((0 < type ∧ type < 256) ∧ 0 < name ∧ name < 256) ∧ bytes = addFieldID type name ++ rest := by
  have hlow : ∀ byte, byte &&& 15 = byte % 16 := fun byte => Nat.and_two_pow_sub_one_eq_mod byte 4
  have hhigh : ∀ byte, byte >>> 4 = byte / 16 := fun byte => Nat.shiftRight_eq_div_pow byte 4
  have htype := common_lt type
  have hname := common_lt name
  simp only [getFieldID, bind_eq_ok, Prod.exists, get8_eq_ok, hlow, hhigh, Except.ok.injEq,
    Prod.mk.injEq, addFieldID_eq]
  constructor
  · rintro ⟨byte, _, ⟨hbyte, rfl⟩, _, _, ht, _, _, hn, ⟨rfl, rfl⟩, rfl⟩
    obtain ⟨htypes, hdiv, rfl⟩ := (getUncommon_eq_ok (by omega)).mp ht
    obtain ⟨hnames, hmod, rfl⟩ := (getUncommon_eq_ok (by omega)).mp hn
    refine ⟨⟨htypes, hnames⟩, ?_⟩
    rw [← hdiv, ← hmod, Nat.div_add_mod, List.cons_append, List.append_assoc]
  · rintro ⟨⟨htypes, hnames⟩, rfl⟩
    refine ⟨_, _, ⟨by omega, rfl⟩, _, _, (getUncommon_eq_ok (by omega)).mpr ⟨htypes, by omega, ?_⟩,
      _, _, (getUncommon_eq_ok (by omega)).mpr ⟨hnames, by omega, rfl⟩, ⟨rfl, rfl⟩, rfl⟩
    exact List.append_assoc ..

/-! ## Lengths -/

theorem add_ofInt {b : UInt8} {x : ℤ} {n : ℕ} (h : (b.toNat + x) % 256 = n % 256) :
    b + .ofInt x = .ofNat n := by
  have hx : (UInt8.ofInt x).toNat = (x % 256).toNat % 256 := UInt8.toNat_ofNat'
  rw [← UInt8.toNat_inj, UInt8.toNat_add, hx, UInt8.toNat_ofNat']
  omega

theorem ofInt_eq {x : ℤ} {n : ℕ} (h : x % 256 = n % 256) : UInt8.ofInt x = .ofNat n := by
  rw [← UInt8.zero_add (UInt8.ofInt x)]
  exact add_ofInt (by rwa [UInt8.toNat_zero, Nat.cast_zero, zero_add])

theorem lengthBytes_two {b1 b2 : ℕ} (h : 193 ≤ b1 ∧ b1 ≤ 240) (hb2 : b2 < 256) :
    lengthBytes (193 + (b1 - 193) * 256 + b2) = [.ofNat b1, .ofNat b2] := by
  simp only [lengthBytes, Int.shiftRight_eq_div_pow]
  rw [if_neg (by omega), if_pos (by omega), add_ofInt (n := b1), ofInt_eq (n := b2) (by omega)]
  show ((193 : ℕ) + _ : ℤ) % 256 = _
  omega

theorem lengthBytes_three {b1 b2 b3 : ℕ} (h : 241 ≤ b1 ∧ b1 ≤ 254) (hb2 : b2 < 256)
    (hb3 : b3 < 256) : lengthBytes (12481 + (b1 - 241) * 65536 + b2 * 256 + b3) =
      [.ofNat b1, .ofNat b2, .ofNat b3] := by
  simp only [lengthBytes, Int.shiftRight_eq_div_pow]
  rw [if_neg (by omega), if_neg (by omega), add_ofInt (n := b1), ofInt_eq (n := b2) (by omega),
    ofInt_eq (n := b3) (by omega)]
  show ((241 : ℕ) + _ : ℤ) % 256 = _
  omega

theorem decodeLengthLength_eq_ok {b1 lenLen : ℕ} : decodeLengthLength b1 = .ok lenLen ↔
    b1 ≤ 192 ∧ lenLen = 1 ∨ (193 ≤ b1 ∧ b1 ≤ 240) ∧ lenLen = 2 ∨
      (241 ≤ b1 ∧ b1 ≤ 254) ∧ lenLen = 3 := by
  unfold decodeLengthLength
  split_ifs <;> simp only [Except.ok.injEq, false_iff] <;> omega

/-- **The decoder accepts the bytes of every length up to 929984**, and nothing else. -/
theorem getVLDataLength_eq_ok {bytes rest : Blob} {length : ℤ} :
    getVLDataLength bytes = .ok (length, rest) ↔
      (0 ≤ length ∧ length ≤ 929984) ∧ bytes = lengthBytes length ++ rest := by
  simp only [getVLDataLength, bind_eq_ok, Prod.exists, get8_eq_ok, decodeLengthLength_eq_ok]
  -- one case for each number of bytes
  simp only [or_and_right, exists_or, and_or_left, and_assoc, exists_eq_left, exists_and_left,
    reduceIte, Nat.reduceEqDiff, decodeVLLength, decodeVLLength₂, decodeVLLength₃, bind_eq_ok,
    failIf_eq_ok, exists_const, Prod.exists, get8_eq_ok, Except.ok.injEq, Prod.mk.injEq]
  constructor
  · rintro (⟨b1, -, _, rfl, hle, -, -, _, rfl, rfl, rfl⟩ |
      ⟨b1, -, _, rfl, hle, hle', b2, hb2, _, rfl, -, -, _, rfl, rfl, rfl⟩ |
      ⟨b1, -, _, rfl, hle, hle', b2, hb2, _, rfl, b3, hb3, _, rfl, -, -, _, rfl, rfl, rfl⟩)
    · rw [lengthBytes, if_pos (by omega), ofInt_eq rfl]
      exact ⟨by omega, by omega, rfl⟩
    · rw [lengthBytes_two ⟨hle, hle'⟩ hb2]
      exact ⟨by omega, by omega, rfl⟩
    · rw [lengthBytes_three ⟨hle, hle'⟩ hb2 hb3]
      exact ⟨by omega, by omega, rfl⟩
  · rintro ⟨h0, hle, rfl⟩
    by_cases h₁ : length ≤ 192
    · lift length to ℕ using h0
      rw [lengthBytes, if_pos h₁, ofInt_eq rfl]
      exact .inl ⟨length, by omega, rest, rfl, by omega, by omega, by omega, _, rfl, rfl, rfl⟩
    by_cases h₂ : length ≤ 12480
    · obtain ⟨b1, b2, hb1, hb2, rfl⟩ : ∃ b1 b2 : ℕ, (193 ≤ b1 ∧ b1 ≤ 240) ∧ b2 < 256 ∧
          length = 193 + (b1 - 193) * 256 + b2 :=
        ⟨(193 + (length - 193) / 256).toNat, ((length - 193) % 256).toNat, by omega, by omega, by omega⟩
      rw [lengthBytes_two hb1 hb2]
      exact .inr (.inl ⟨b1, by omega, _, rfl, by omega, by omega, b2, hb2, rest, rfl, by omega,
        by omega, _, rfl, rfl, rfl⟩)
    · obtain ⟨b1, b2, b3, hb1, hb2, hb3, rfl⟩ : ∃ b1 b2 b3 : ℕ, (241 ≤ b1 ∧ b1 ≤ 254) ∧ b2 < 256 ∧
          b3 < 256 ∧ length = 12481 + (b1 - 241) * 65536 + b2 * 256 + b3 :=
        ⟨(241 + (length - 12481) / 65536).toNat, ((length - 12481) / 256 % 256).toNat,
          ((length - 12481) % 256).toNat, by omega, by omega, by omega, by omega⟩
      rw [lengthBytes_three hb1 hb2 hb3]
      exact .inr (.inr ⟨b1, by omega, _, rfl, by omega, by omega, b2, hb2, _, rfl, b3, hb3, rest,
        rfl, by omega, by omega, _, rfl, rfl, rfl⟩)

/-- **Prefixes are restored, and canonical**, except for a negative length, of which the last byte is
written, and for a length above 918744, which is read and not written. -/
theorem prefixes_exact_iff (length : ℤ) (bytes : Blob) :
    ((∀ type name rest, (0 < type ∧ type < 256) ∧ 0 < name ∧ name < 256 →
        getFieldID (addFieldID type name ++ rest) = .ok ((type, name), rest)) ∧
      (∀ written rest, addEncoded length = .ok written →
        getVLDataLength (written ++ rest) = .ok (length, rest)) ∧
      (∀ type name rest, getFieldID bytes = .ok ((type, name), rest) →
        ((0 < type ∧ type < 256) ∧ 0 < name ∧ name < 256) ∧ bytes = addFieldID type name ++ rest) ∧
      ∀ n rest, getVLDataLength bytes = .ok (n, rest) →
        ∃ written, addEncoded n = .ok written ∧ bytes = written ++ rest) ↔
    0 ≤ length ∧ ∀ b2 b3 rest, bytes = 254 :: b2 :: b3 :: rest → b2.toNat * 256 + b3.toNat ≤ 54295 := by
  constructor
  · rintro ⟨-, hwritten, -, hread⟩
    refine ⟨?_, fun b2 b3 rest hbytes => ?_⟩
    · by_contra h
      have hdec := hwritten (lengthBytes length) [] (if_pos (by omega))
      exact h (getVLDataLength_eq_ok.mp hdec).1.1
    · have hb2 := b2.toNat_lt
      have hb3 := b3.toNat_lt
      have hdec : getVLDataLength bytes =
          .ok (12481 + ((254 : ℕ) - 241) * 65536 + b2.toNat * 256 + b3.toNat, rest) := by
        refine getVLDataLength_eq_ok.mpr ⟨by omega, ?_⟩
        rw [lengthBytes_three (by decide) hb2 hb3, UInt8.ofNat_toNat, UInt8.ofNat_toNat]
        exact hbytes
      obtain ⟨_, henc, -⟩ := hread _ rest hdec
      unfold addEncoded at henc
      split at henc
      · omega
      · cases henc
  · rintro ⟨h0, hbytes⟩
    refine ⟨fun type name rest h => getFieldID_eq_ok.mpr ⟨h, rfl⟩, fun written rest h => ?_,
      fun type name rest => getFieldID_eq_ok.mp, fun n rest h => ?_⟩
    · unfold addEncoded at h
      split at h
      · cases h
        exact getVLDataLength_eq_ok.mpr ⟨⟨h0, by omega⟩, rfl⟩
      · cases h
    · obtain ⟨⟨hn0, hn⟩, rfl⟩ := getVLDataLength_eq_ok.mp h
      refine ⟨_, if_pos ?_, rfl⟩
      by_contra hlong
      obtain ⟨b2, b3, hb2, hb3, rfl⟩ : ∃ b2 b3 : ℕ, b2 < 256 ∧ b3 < 256 ∧
          n = 12481 + ((254 : ℕ) - 241) * 65536 + b2 * 256 + b3 :=
        ⟨((n - 864449) / 256).toNat, ((n - 864449) % 256).toNat, by omega, by omega, by omega⟩
      rw [lengthBytes_three (by decide) hb2 hb3] at hbytes
      have hle := hbytes _ _ _ rfl
      rw [UInt8.toNat_ofNat_of_lt' hb2, UInt8.toNat_ofNat_of_lt' hb3] at hle
      omega

/-- The longest lengths that are read are not written. -/
theorem read_not_written : getVLDataLength [254, 0xD4, 0x18] = .ok (918745, []) ∧
    addEncoded 918745 = .error "lenlen" :=
  ⟨by decide +kernel, rfl⟩

end Xahau.Serializer
