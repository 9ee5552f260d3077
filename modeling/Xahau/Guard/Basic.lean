import Xahau.Data.Checked
import Xahau.Data.Leb128

/-! # Reading a hook's bytes (`Guard.h`)

The guard checker walks over a WebAssembly module with `int` positions. Besides a result it can end
by rejecting the module with a log code, by throwing, or in C++ that has no defined behaviour. -/

namespace Xahau.Guard

open Leb128

/-- The `hook_log_code`s of the guard checker. -/
inductive LogCode : Type where
  | callIllegal | callIndirect | exportsMissing | exportCbakFunc | exportHookFunc | exportMissing
  | funcsMissing | funcParamInvalid | funcReturnCount | funcReturnInvalid | funcTypeless
  | funcTypeInvalid | guardImport | guardMissing | importsMissing | importIllegal
  | importModuleBad | importModuleEnv | importNameBad | instructionExcess | memoryGrow
  | paramHookCbak | returnHookCbak | shortHook | typeInvalid | wasmBadMagic | wasmParseLoop
  | wasmTooSmall | hookCbakDiffTypes | nestingLimit | sectionsOutOfSequence
  | customSectionDisallowed
  deriving DecidableEq, Repr

/-- Behaviour that C++ leaves undefined. -/
inductive Undefined : Type where
  /-- A read at or past the end of the bytes. -/
  | outOfRange
  /-- A shift by the width of the type or more. -/
  | shift
  /-- An `int` that leaves its range. -/
  | intOverflow
  /-- The value of an empty `std::optional`. -/
  | emptyOptional
  /-- The entry at `end()` of a map. -/
  | endOfMap
  deriving DecidableEq, Repr

/-- How the guard checker ends without a result. -/
inductive Fault : Type where
  /-- The module is rejected with a line in the log. -/
  | reject (code : LogCode) (message : String)
  /-- `std::overflow_error`. -/
  | overflowError
  /-- `std::length_error`. -/
  | lengthError
  /-- The behaviour is undefined. -/
  | undefined (what : Undefined)
  /-- The recursion of the model ran out. -/
  | outOfFuel
  deriving DecidableEq, Repr

/-- A computation of the guard checker. -/
abbrev Check := Except Fault

/-! ## Numbers -/

/-- The conversion of a `uint64_t` to `int`. -/
def toInt (n : Nat) : Int := (n : Int).bmod 0x100000000

/-- The conversion of an `int` to `uint64_t`. -/
def toUInt64 (n : Int) : Nat := (n % 0x10000000000000000).toNat

/-- The addition of two `int`s. -/
def addInt (a b : Int) : Check Int :=
  if -0x80000000 ≤ a + b ∧ a + b < 0x80000000 then .ok (a + b) else .error (.undefined .intOverflow)

/-- The loop of `parseLeb128` over the bytes that are left at position `i`. -/
def lebLoop : List UInt8 → (val shift i : Nat) → Check (Nat × Nat)
  | [], _, _, _ => .error .lengthError
  | b :: rest, val, shift, i =>
    if 64 ≤ shift then .error (.undefined .shift)
    else
      let next := (val + ((b.toNat % 128) <<< shift) % 2 ^ 64) % 2 ^ 64
      if next < val then .error .overflowError
      else if 128 ≤ b.toNat then lebLoop rest next (shift + 7) (i + 1)
      else .ok (next, i + 1)

section

variable (wasm : List UInt8)

/-- `parseLeb128`: the number at `i` and the position after it. At the end it is zero and the
position stays. -/
def parseLeb128 (i : Nat) : Check (Nat × Nat) :=
  match wasm.drop i with
  | [] => .ok (0, i)
  | bytes => lebLoop bytes 0 0 i

/-- The loop of `parseSignedLeb128`, an `int64_t`. The sign is extended from the last shift, in 32
bits. -/
def signedLebLoop : List UInt8 → (val : Int) → (shift i : Nat) → Check (Int × Nat)
  | [], _, _, _ => .error .lengthError
  | b :: rest, val, shift, i =>
    if 64 ≤ shift then .error (.undefined .shift)
    else
      let next := (val + (b.toNat % 128) * 2 ^ shift).bmod (2 ^ 64)
      if next < val then .error .overflowError
      else if 128 ≤ b.toNat then signedLebLoop rest next (shift + 7) (i + 1)
      else if b.toNat / 64 % 2 = 0 then .ok (next, i + 1)
      else if 32 ≤ shift then .error (.undefined .shift)
      else
        let signBits := ((-2 ^ shift : Int) % 2 ^ 64).toNat
        .ok ((((next % 2 ^ 64).toNat ||| signBits : Nat) : Int).bmod (2 ^ 64), i + 1)

/-- `parseSignedLeb128`. -/
def parseSignedLeb128 (i : Nat) : Check (Int × Nat) :=
  match wasm.drop i with
  | [] => .ok (0, i)
  | bytes => signedLebLoop bytes 0 0 i

/-! ## Bytes -/

/-- The text of `SHORT_HOOK`. -/
def shortHookMessage : String := "Malformed transaction: Hook truncated or otherwise invalid. "

/-- `CHECK_SHORT_HOOK`: a position inside the bytes. -/
def checkShortHook (i : Int) : Check Nat :=
  if 0 ≤ i ∧ i < wasm.length then .ok i.toNat
  else .error (.reject .shortHook shortHookMessage)

/-- `REQUIRE`: that many bytes are left. -/
def require (i count : Nat) : Check Unit :=
  if wasm.length < i + count then .error (.reject .shortHook shortHookMessage) else .ok ()

/-- `wasm[i]`. -/
def byteAt (i : Nat) : Check UInt8 :=
  match wasm[i]? with
  | some b => .ok b
  | none => .error (.undefined .outOfRange)

end

/-- The fault of `GUARD_ERROR`. -/
def guardFault (message : String) : Fault := .reject .guardMissing message

/-- `GUARD_ERROR`. -/
def guardError {α : Type} (message : String) : Check α := .error (guardFault message)

/-- Stop with a fault if the condition holds. -/
def rejectIf (condition : Prop) [Decidable condition] (fault : Fault) : Check Unit :=
  if condition then .error fault else .ok ()

/-- The bytes as a `std::string`. -/
def textOf (bytes : List UInt8) : String := String.ofList (bytes.map fun b => Char.ofNat b.toNat)

/-! ## What the readers return -/

theorem rejectIf_eq_ok {condition : Prop} [Decidable condition] {fault : Fault} {u : Unit} :
    rejectIf condition fault = .ok u ↔ ¬ condition := by
  rw [rejectIf]
  split <;> simp [*]

variable {bytes wasm : List UInt8} {i j k shift u v val : Nat} {b : UInt8}

/-- Seven bits are put above those that have been read, and others above them. -/
theorem add_group (hval : val < 2 ^ shift) (b : UInt8) :
    val + b.toNat % 128 * 2 ^ shift < 2 ^ (shift + 7) ∧
      ∀ m, 128 ≤ b.toNat → val + b.toNat % 128 * 2 ^ shift + m * 2 ^ (shift + 7)
        = val + (b.toNat - 128 + 128 * m) * 2 ^ shift := by
  have hmul : b.toNat % 128 * 2 ^ shift ≤ 127 * 2 ^ shift := Nat.mul_le_mul_right _ (by omega)
  rw [Nat.pow_add]
  refine ⟨by omega, fun m hmore => ?_⟩
  have hbyte := b.toNat_lt
  rw [show b.toNat % 128 = b.toNat - 128 by omega]
  ring

/-- **What the loop returns**, by the number of the groups. No sum is too large. -/
theorem lebLoop_eq (hval : val < 2 ^ shift) (hshift : shift < 71) :
    lebLoop bytes val shift i = match raw bytes with
      | some (u, k) => if shift + 7 * k < 71 then .ok ((val + u * 2 ^ shift) % 2 ^ 64, i + k)
          else .error (.undefined .shift)
      | none => if shift + 7 * bytes.length < 71 then .error .lengthError
          else .error (.undefined .shift) := by
  induction bytes generalizing val shift i with
  | nil => simp [lebLoop, raw, hshift]
  | cons b rest ih =>
    obtain ⟨hlt, hsum⟩ := add_group hval b
    rw [lebLoop]
    by_cases hlarge : 64 ≤ shift
    · rw [if_pos hlarge]
      cases hraw : raw (b :: rest) with
      | none => exact (if_neg (by rw [List.length_cons]; omega)).symm
      | some p =>
        have hpos := (raw_length hraw).1
        exact (if_neg (by omega)).symm
    have hnext : (val + (b.toNat % 128) <<< shift % 2 ^ 64) % 2 ^ 64
        = (val + b.toNat % 128 * 2 ^ shift) % 2 ^ 64 := by
      rw [Nat.shiftLeft_eq, Nat.add_mod_mod]
    -- the bits that have been read stay
    have hover : ¬ (val + b.toNat % 128 * 2 ^ shift) % 2 ^ 64 < val := by
      have hlow : (val + b.toNat % 128 * 2 ^ shift) % 2 ^ 64 % 2 ^ shift = val := by
        rw [Nat.mod_mod_of_dvd _ (Nat.pow_dvd_pow 2 (by omega)), Nat.add_mul_mod_self_right,
          Nat.mod_eq_of_lt hval]
      exact Nat.not_lt.mpr (hlow.symm.trans_le (Nat.mod_le _ _))
    simp only [if_neg hlarge, hnext, if_neg hover]
    by_cases hmore : 128 ≤ b.toNat
    · rw [if_pos hmore, ih (Nat.lt_of_le_of_lt (Nat.mod_le _ _) hlt) (by omega),
        raw_cons_of_le hmore]
      cases raw rest with
      | none => simp only [Option.map_none, List.length_cons, Nat.mul_add_one, Nat.add_assoc,
          Nat.add_comm 7]
      | some p => simp only [Option.map_some, Nat.mod_add_mod, hsum _ hmore, Nat.mul_add_one,
          Nat.add_assoc, Nat.add_comm 7, Nat.add_comm 1]
    · rw [if_neg hmore, raw_cons_of_lt (by omega), Nat.mod_eq_of_lt (show b.toNat < 128 by omega)]
      exact (if_pos (by omega)).symm

theorem parseLeb128_eq
    (hraw : raw (wasm.drop i) = some (u, k)) (h : parseLeb128 wasm i = .ok (v, j)) :
    j = i + k ∧ v = u % 2 ^ 64 := by
  rw [parseLeb128] at h
  cases hbyt : wasm.drop i with
  | nil => simp [hbyt, raw] at hraw
  | cons b rest =>
    rw [hbyt] at h hraw
    replace h := (lebLoop_eq Nat.zero_lt_one (by decide)).symm.trans h
    rw [hraw] at h
    dsimp only at h
    split at h
    · simpa [eq_comm, and_comm] using h
    · cases h

theorem raw_of_signedLebLoop {val v : Int} (h : signedLebLoop bytes val shift i = .ok (v, j)) :
    ∃ u k, raw bytes = some (u, k) ∧ j = i + k ∧ (negative bytes = true → shift + 7 * k < 39) := by
  induction bytes generalizing val shift i with
  | nil => simp [signedLebLoop] at h
  | cons b rest ih =>
    have hbyte := b.toNat_lt
    rw [signedLebLoop] at h
    by_cases hmore : 128 ≤ b.toNat
    · simp only [hmore, if_true] at h
      split at h
      · cases h
      split at h
      · cases h
      obtain ⟨u, k, hraw, rfl, hneg⟩ := ih h
      refine ⟨b.toNat - 128 + 128 * u, k + 1, ?_, by omega, fun h => ?_⟩
      · rw [raw_cons_of_le hmore, hraw, Option.map_some]
      · rw [negative, if_neg (by omega)] at h
        have := hneg h
        omega
    · refine ⟨b.toNat, 1, raw_cons_of_lt (by omega) _, ?_⟩
      simp only [hmore, if_false] at h
      rw [negative, if_pos (by omega), decide_eq_true_eq]
      -- whatever the sign, the position is the one after the byte
      split at h
      · cases h
      split at h
      · cases h
      split at h
      · rw [Except.ok.injEq, Prod.mk.injEq] at h
        exact ⟨h.2.symm, by omega⟩
      split at h
      · cases h
      · rw [Except.ok.injEq, Prod.mk.injEq] at h
        exact ⟨h.2.symm, by omega⟩

theorem parseSignedLeb128_eq {v : Int} (hraw : raw (wasm.drop i) = some (u, k))
    (h : parseSignedLeb128 wasm i = .ok (v, j)) : j = i + k := by
  rw [parseSignedLeb128] at h
  cases hbyt : wasm.drop i with
  | nil => simp [hbyt, raw] at hraw
  | cons b rest =>
    rw [hbyt] at h hraw
    obtain ⟨u', k', hraw', rfl, -⟩ := raw_of_signedLebLoop h
    rw [hraw] at hraw'
    cases hraw'
    rfl

/-- **Extending a sign** sets all bits above the low ones. -/
theorem extend_sign {x s : ℕ} (hx : x < 2 ^ 63) (hs : s < 63) :
    (((x % 2 ^ 64 : ℤ).toNat ||| ((-2 ^ s : ℤ) % 2 ^ 64).toNat : ℕ) : ℤ).bmod (2 ^ 64)
      = ((x % 2 ^ s : ℕ) : ℤ) - 2 ^ s := by
  have hpow : 2 ^ s < 2 ^ 63 := Nat.pow_lt_pow_right (by decide) hs
  have hlow := Nat.mod_lt x (Nat.two_pow_pos s)
  have hcast : ((2 ^ s : ℕ) : ℤ) = 2 ^ s := Nat.cast_pow 2 s
  have hones : ((-2 ^ s : ℤ) % 2 ^ 64).toNat = 2 ^ 64 - 2 ^ s := by omega
  have hdvd : 2 ^ s ∣ 2 ^ 64 - 2 ^ s := Nat.dvd_sub (Nat.pow_dvd_pow 2 (by omega)) dvd_rfl
  rw [hones, show (x % 2 ^ 64 : ℤ).toNat = x by omega]
  -- the word is not below the bits that are set, and keeps the low ones
  obtain ⟨t, ht⟩ := Nat.exists_eq_add_of_le (Nat.right_le_or (n := x) (m := 2 ^ 64 - 2 ^ s))
  have hlt : x ||| (2 ^ 64 - 2 ^ s) < 2 ^ 64 := Nat.or_lt_two_pow (by omega) (by omega)
  have hmod : (x ||| (2 ^ 64 - 2 ^ s)) % 2 ^ s = x % 2 ^ s := by
    rw [Nat.or_mod_two_pow, Nat.mod_eq_zero_of_dvd hdvd, Nat.or_zero]
  rw [ht] at hlt hmod ⊢
  rw [Nat.add_mod, Nat.mod_eq_zero_of_dvd hdvd, Nat.zero_add, Nat.mod_mod,
    Nat.mod_eq_of_lt (by omega)] at hmod
  rw [Int.bmod_def]
  split <;> omega

/-- **What the loop returns for a number** below 2⁶³: if its sign bit is set, its last seven bits are
taken for ones. -/
theorem signedLebLoop_eq (hval : val < 2 ^ shift) (hraw : raw bytes = some (u, k))
    (hlt : val + u * 2 ^ shift < 2 ^ 63) (hk : shift + 7 * k < 71)
    (hneg : negative bytes = true → shift + 7 * k < 39) :
    signedLebLoop bytes val shift i = .ok (if negative bytes = true then
      ((val + u * 2 ^ shift) % 2 ^ (shift + 7 * (k - 1)) : ℕ) - 2 ^ (shift + 7 * (k - 1))
      else (val + u * 2 ^ shift : ℕ), i + k) := by
  induction bytes generalizing val shift i u k with
  | nil => simp [raw] at hraw
  | cons b rest ih =>
    have hbyte := b.toNat_lt
    obtain ⟨hlt', hsum⟩ := add_group hval b
    have hnext : val + b.toNat % 128 * 2 ^ shift < 2 ^ 63 →
        ((val : ℤ) + b.toNat % 128 * 2 ^ shift).bmod (2 ^ 64)
          = (val + b.toNat % 128 * 2 ^ shift : ℕ) := by
      intro hlt
      rw [show (val : ℤ) + b.toNat % 128 * 2 ^ shift = (val + b.toNat % 128 * 2 ^ shift : ℕ) by
        push_cast; rfl]
      exact Int.bmod_eq_of_le (by omega) (by omega)
    have hover : ¬ ((val + b.toNat % 128 * 2 ^ shift : ℕ) : ℤ) < val := by omega
    have hpos := (raw_length hraw).1
    rw [signedLebLoop, if_neg (by omega)]
    by_cases hmore : 128 ≤ b.toNat
    · rw [raw_cons_of_le hmore] at hraw
      obtain ⟨⟨m, j⟩, hm, heq⟩ := Option.map_eq_some_iff.mp hraw
      cases heq
      have hj := (raw_length hm).1
      rw [← hsum m hmore] at hlt ⊢
      have hsign : negative (b :: rest) = negative rest := by rw [negative, if_neg (by omega)]
      rw [hsign] at hneg ⊢
      simp only [hnext (by omega), if_neg hover]
      rw [if_pos hmore, ih hlt' hm hlt (by omega) (fun h => (by have := hneg h; omega)),
        show shift + 7 + 7 * (j - 1) = shift + 7 * (j + 1 - 1) by omega, Nat.add_assoc i,
        Nat.add_comm 1]
    · rw [raw_cons_of_lt (by omega)] at hraw
      cases hraw
      have hbits : b.toNat % 128 = b.toNat := by omega
      have hsign : negative (b :: rest) = true ↔ 64 ≤ b.toNat := by
        rw [negative, if_pos (by omega), decide_eq_true_eq]
      rw [hbits] at hnext hover
      simp only [hnext hlt, if_neg hover, if_neg hmore, hsign]
      by_cases hlast : 64 ≤ b.toNat
      · have hshort := hneg (hsign.mpr hlast)
        rw [if_neg (by omega), if_neg (by omega), extend_sign hlt (by omega), if_pos hlast]
        rfl
      · rw [if_pos (by omega), if_neg hlast]

/-- `parseLeb128` gives the number at a position and its length, or throws. -/
def Exact (wasm : List UInt8) (i : Nat) : Prop :=
  match parseLeb128 wasm i with
  | .ok (v, j) => v < 2 ^ 64 ∧ ∃ k, raw (wasm.drop i) = some (v, k) ∧ j = i + k
  | .error fault => fault = .overflowError ∨ fault = .lengthError

/-- The number has 64 bits and ten bytes; if it does not end, no eleventh byte is looked at. -/
def Fits (bytes : List UInt8) : Prop :=
  match raw bytes with
  | some (u, k) => u < 2 ^ 64 ∧ k ≤ 10
  | none => bytes ≠ [] ∧ bytes.length ≤ 10

/-- The highest seven bits of a number are ones. -/
theorem mod_sub_eq_iff {s : ℕ} (hu : (u : ℤ) < 2 ^ 7 * 2 ^ s) :
    ((u % 2 ^ s : ℕ) : ℤ) - 2 ^ s = u - 2 ^ 7 * 2 ^ s ↔ (-2 ^ s : ℤ) ≤ u - 2 ^ 7 * 2 ^ s := by
  have hcast : ((2 ^ s : ℕ) : ℤ) = 2 ^ s := Nat.cast_pow 2 s
  refine ⟨fun h => by omega, fun h => ?_⟩
  have hmod : u % 2 ^ s = u - 2 ^ s * 127 := by
    rw [← Nat.sub_mul_mod (show 2 ^ s * 127 ≤ u by omega), Nat.mod_eq_of_lt (by omega)]
  omega

/-- **LEB128 numbers.** -/
theorem leb128_exact_iff (wasm : List UInt8) (i : Nat) :
    (Exact wasm i ↔ Fits (wasm.drop i)) ∧
    ∀ v k, signed 64 (wasm.drop i) = some (v, k) →
      (parseSignedLeb128 wasm i = .ok (v, i + k) ↔ 0 ≤ v ∨ (k ≤ 5 ∧ -2 ^ (7 * (k - 1)) ≤ v)) := by
  rw [Exact, parseLeb128, parseSignedLeb128]
  cases hbytes : wasm.drop i with
  | nil => simp [Fits, raw, signed]
  | cons b rest =>
    refine ⟨?_, fun v k h => ?_⟩
    · dsimp only
      rw [lebLoop_eq (by decide) (by decide), Fits]
      cases hraw : raw (b :: rest) with
      | none => by_cases hle : 7 * (rest.length + 1) < 71 <;> simp [hle] <;> omega
      | some p =>
        obtain ⟨u, k⟩ := p
        by_cases hle : 7 * k < 71 <;> simp [hle] <;> omega
    obtain ⟨u, hraw, hk, hv, hlow, hhigh⟩ := raw_of_signed (by decide) h
    have hloop := signedLebLoop_eq (i := i) (show 0 < 2 ^ 0 by decide) hraw
    simp only [zero_add, pow_zero, mul_one, Nat.cast_zero] at hloop
    dsimp only
    cases hneg : negative (b :: rest) with
    | false =>
      obtain rfl : v = u := by simpa [hneg] using hv
      refine iff_of_true ?_ (.inl (by omega))
      simpa [hneg] using hloop (by omega) (by omega)
    | true =>
      have hlt : (u : ℤ) < 2 ^ (7 * k) := by exact_mod_cast raw_lt hraw
      have hpos := (raw_length hraw).1
      rw [hneg, if_pos rfl] at hv
      rw [show 7 * k = 7 + 7 * (k - 1) by omega, pow_add] at hlt hv
      by_cases hle : k ≤ 5
      · have hsmall : (2 : ℤ) ^ (7 * (k - 1)) ≤ 2 ^ 28 := pow_le_pow_right₀ (by decide) (by omega)
        rw [hloop (by omega) (by omega) (fun _ => by omega), hneg, if_pos rfl, Except.ok.injEq,
          Prod.mk.injEq, hv, mod_sub_eq_iff hlt]
        omega
      · refine iff_of_false (fun h => ?_) (by omega)
        obtain ⟨_, _, hraw', -, hshort⟩ := raw_of_signedLebLoop h
        rw [hraw] at hraw'
        cases hraw'
        have := hshort hneg
        omega

/-- **A number is cut** to 64 bits, and -2 is read as -1. -/
theorem leb128_wrong :
    (parseLeb128 (List.replicate 9 0x80 ++ [2]) 0 = .ok (0, 10) ∧
      raw (List.replicate 9 0x80 ++ [2]) = some (2 ^ 64, 10)) ∧
    parseSignedLeb128 [0x7E] 0 = .ok (-1, 1) ∧ signed 64 [0x7E] = some (-2, 1) := by
  decide +kernel

theorem byteAt_eq_ok : byteAt wasm i = .ok b ↔ wasm[i]? = some b := by
  rw [byteAt]
  cases wasm[i]? <;> simp

theorem drop_of_byteAt (h : byteAt wasm i = .ok b) : wasm.drop i = b :: wasm.drop (i + 1) := by
  obtain ⟨hi, rfl⟩ := List.getElem?_eq_some_iff.mp (byteAt_eq_ok.mp h)
  exact List.drop_eq_getElem_cons hi

end Xahau.Guard
