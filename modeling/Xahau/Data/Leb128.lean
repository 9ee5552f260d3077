import Mathlib

/-! # LEB128 numbers

Seven bits a byte, lowest first, every byte but the last with its high bit set. `Leb128.unsigned N`
and `Leb128.signed N` are the grammars of `N`-bit numbers; `Leb128.raw` is the number of the groups
of seven bits alone, whatever its length. -/

namespace Leb128

open Option

/-- The number written by the groups of seven bits, and how many bytes it takes. -/
def raw : List UInt8 → Option (Nat × Nat)
  | [] => none
  | b :: rest =>
    if b.toNat < 128 then some (b.toNat, 1)
    else do
      let (m, k) ← raw rest
      some (b.toNat - 128 + 128 * m, k + 1)

/-- Whether the sign bit of the last byte is set. -/
def negative : List UInt8 → Bool
  | [] => false
  | b :: rest => if b.toNat < 128 then decide (64 ≤ b.toNat) else negative rest

/-- An unsigned number of `bits` bits, and how many bytes it takes. -/
def unsigned (bits : Nat) : List UInt8 → Option (Nat × Nat)
  | [] => none
  | b :: rest =>
    if b.toNat < 128 then
      if b.toNat < 2 ^ bits then some (b.toNat, 1) else none
    else if 7 < bits then do
      let (m, k) ← unsigned (bits - 7) rest
      some (b.toNat - 128 + 128 * m, k + 1)
    else none

/-- A signed number of `bits` bits, and how many bytes it takes. -/
def signed (bits : Nat) : List UInt8 → Option (Int × Nat)
  | [] => none
  | b :: rest =>
    if b.toNat < 64 then
      if b.toNat < 2 ^ (bits - 1) then some (b.toNat, 1) else none
    else if b.toNat < 128 then
      if 128 ≤ b.toNat + 2 ^ (bits - 1) then some (b.toNat - 128, 1) else none
    else if 7 < bits then do
      let (m, k) ← signed (bits - 7) rest
      some (b.toNat - 128 + 128 * m, k + 1)
    else none

/-! ## The groups of seven bits -/

variable {l : List UInt8} {bits k u : Nat} {b : UInt8}

theorem raw_cons_of_lt (h : b.toNat < 128) (rest : List UInt8) :
    raw (b :: rest) = some (b.toNat, 1) := by
  rw [raw, if_pos h]

/-- A byte that is not the last adds its bits below those that follow. -/
theorem raw_cons_of_le (h : 128 ≤ b.toNat) (rest : List UInt8) :
    raw (b :: rest) = (raw rest).map fun p => (b.toNat - 128 + 128 * p.1, p.2 + 1) := by
  rw [raw, if_neg (by omega)]
  cases raw rest <;> rfl

theorem raw_append {p : Nat × Nat} (h : raw l = some p) (tail : List UInt8) :
    raw (l ++ tail) = some p := by
  induction l generalizing p with
  | nil => simp [raw] at h
  | cons b l ih =>
    rw [List.cons_append]
    by_cases hb : b.toNat < 128
    · rw [raw_cons_of_lt hb] at h ⊢
      exact h
    rw [raw_cons_of_le (by omega)] at h ⊢
    obtain ⟨q, hq, rfl⟩ := map_eq_some_iff.mp h
    rw [ih hq, map_some]

theorem raw_length (h : raw l = some (u, k)) : 1 ≤ k ∧ k ≤ l.length := by
  induction l generalizing u k with
  | nil => simp [raw] at h
  | cons b l ih =>
    by_cases hb : b.toNat < 128
    · rw [raw_cons_of_lt hb] at h
      cases h
      simp
    rw [raw_cons_of_le (by omega)] at h
    obtain ⟨⟨m, j⟩, hj, heq⟩ := map_eq_some_iff.mp h
    cases heq
    have := ih hj
    rw [List.length_cons]
    omega

theorem raw_lt (h : raw l = some (u, k)) : u < 2 ^ (7 * k) := by
  induction l generalizing u k with
  | nil => simp [raw] at h
  | cons b l ih =>
    have hbyte := b.toNat_lt
    by_cases hb : b.toNat < 128
    · rw [raw_cons_of_lt hb] at h
      cases h
      simpa using hb
    rw [raw_cons_of_le (by omega)] at h
    obtain ⟨⟨m, j⟩, hj, heq⟩ := map_eq_some_iff.mp h
    cases heq
    have hm := ih hj
    have hpow : 2 ^ (7 * (j + 1)) = 128 * 2 ^ (7 * j) := by
      rw [Nat.mul_add, Nat.pow_add, Nat.mul_comm]
    rw [hpow]
    omega

/-! ## The bounded grammars -/

/-- An unsigned number is what its groups write, in the bytes its width needs. -/
theorem raw_of_unsigned (hpos : 0 < bits) (h : unsigned bits l = some (u, k)) :
    raw l = some (u, k) ∧ u < 2 ^ bits := by
  induction l generalizing bits u k with
  | nil => simp [unsigned] at h
  | cons b l ih =>
    have hbyte := b.toNat_lt
    rw [unsigned] at h
    split at h
    next hb =>
      split at h
      next hbits =>
        cases h
        exact ⟨raw_cons_of_lt hb _, hbits⟩
      · cases h
    · split at h
      · obtain ⟨⟨m, j⟩, hm, heq⟩ := bind_eq_some_iff.mp h
        cases heq
        obtain ⟨hraw, hlt⟩ := ih (by omega) hm
        have hpow : 2 ^ bits = 128 * 2 ^ (bits - 7) := by
          rw [show bits = 7 + (bits - 7) by omega, Nat.pow_add, Nat.add_sub_cancel_left]
        refine ⟨?_, by omega⟩
        rw [raw_cons_of_le (by omega), hraw, map_some]
      · cases h

/-- A signed number is what its groups write, less the weight above them if the sign bit is set. -/
theorem raw_of_signed {v : Int} (hpos : 0 < bits) (h : signed bits l = some (v, k)) :
    ∃ u, raw l = some (u, k) ∧ 7 * k < bits + 7 ∧
      v = u - (if negative l = true then 2 ^ (7 * k) else 0) ∧
      -2 ^ (bits - 1) ≤ v ∧ v < 2 ^ (bits - 1) := by
  induction l generalizing bits v k with
  | nil => simp [signed] at h
  | cons b l ih =>
    have hbyte := b.toNat_lt
    have hcast : ((2 ^ (bits - 1) : Nat) : Int) = 2 ^ (bits - 1) := by norm_cast
    rw [signed] at h
    split at h
    next hsma =>
      split at h
      · cases h
        have hneg : negative (b :: l) = false := by
          simp [negative, show b.toNat < 128 by omega, hsma]
        exact ⟨b.toNat, raw_cons_of_lt (by omega) _, by omega, by simp [hneg], by omega, by omega⟩
      · cases h
    · split at h
      next hb =>
        split at h
        · cases h
          have hneg : negative (b :: l) = true := by
            simp only [negative, hb, if_true, decide_eq_true_eq]
            omega
          exact ⟨b.toNat, raw_cons_of_lt hb _, by omega, by simp [hneg], by omega, by omega⟩
        · cases h
      next hb =>
        split at h
        · obtain ⟨⟨m, j⟩, hm, heq⟩ := bind_eq_some_iff.mp h
          cases heq
          obtain ⟨u, hraw, hj, hv, hlow, hhigh⟩ := ih (by omega) hm
          have hneg : negative (b :: l) = negative l := by rw [negative, if_neg hb]
          have hpow : (2 : Int) ^ (bits - 1) = 128 * 2 ^ (bits - 7 - 1) := by
            rw [show bits - 1 = 7 + (bits - 7 - 1) by omega, pow_add]
            norm_num
          have hwei : (2 : Int) ^ (7 * (j + 1)) = 128 * 2 ^ (7 * j) := by
            rw [Nat.mul_add, pow_add]
            ring
          refine ⟨b.toNat - 128 + 128 * u, ?_, by omega, ?_, by omega, by omega⟩
          · rw [raw_cons_of_le (by omega), hraw, map_some]
          have hsub : ((b.toNat - 128 : Nat) : Int) = b.toNat - 128 := by omega
          rw [hneg, hv, hwei]
          push_cast
          rw [hsub]
          split <;> ring
        · cases h

end Leb128
