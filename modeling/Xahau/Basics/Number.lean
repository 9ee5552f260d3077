import Mathlib

/-! # Numbers (`Number.cpp`)

`Number` drops the last digits of a 128-bit mantissa with `divu10`, which has no division: four
fifths are approached by shifts and sums, each of which loses less than one. -/

namespace Xahau.Number

/-- `divu10`: what it leaves in `u`, and the `unsigned` that it returns. -/
def divu10 (u : BitVec 128) : BitVec 128 × BitVec 32 :=
  -- q = u * 0.75
  let q := (u >>> 1) + (u >>> 2)
  -- iterate towards q = u * 0.8
  let q := q + (q >>> 4)
  let q := q + (q >>> 8)
  let q := q + (q >>> 16)
  let q := q + (q >>> 32)
  let q := q + (q >>> 64)
  let q := q >>> 3
  let r := (u - ((q <<< 3) + (q <<< 1))).setWidth 32
  -- correction c is 1 if r >= 10 else 0
  let c := (r + 6#32) >>> 4
  (q + c.setWidth 128, r - c * 10#32)

/-- A step that does not overflow multiplies by a factor, and loses less than one. -/
theorem step_bounds (k : ℕ) {q next : BitVec 128} (hnext : next = q + q >>> k)
    (h : (2 ^ k + 1) * q.toNat < 2 ^ k * 2 ^ 128) :
    2 ^ k * next.toNat ≤ (2 ^ k + 1) * q.toNat ∧
      (2 ^ k + 1) * q.toNat < 2 ^ k * next.toNat + 2 ^ k := by
  have hdiv := Nat.div_add_mod q.toNat (2 ^ k)
  have hmod := Nat.mod_lt q.toNat (Nat.two_pow_pos k)
  rw [add_one_mul] at h ⊢
  have hsum : q.toNat + q.toNat / 2 ^ k < 2 ^ 128 := by
    refine Nat.lt_of_mul_lt_mul_left (a := 2 ^ k) ?_
    rw [mul_add]
    omega
  rw [hnext, BitVec.toNat_add, BitVec.toNat_ushiftRight, Nat.shiftRight_eq_div_pow,
    Nat.mod_eq_of_lt hsum, mul_add]
  omega

/-- **Division by ten without division.** -/
theorem divu10_eq (u : BitVec 128) :
    (divu10 u).1.toNat = u.toNat / 10 ∧ (divu10 u).2.toNat = u.toNat % 10 := by
  have hu := u.isLt
  unfold divu10
  extract_lets q0 q1 q2 q3 q4 q5 q r c
  have h0 : 4 * q0.toNat ≤ 3 * u.toNat ∧ 3 * u.toNat ≤ 4 * q0.toNat + 5 := by
    simp only [q0, BitVec.toNat_add, BitVec.toNat_ushiftRight, Nat.shiftRight_eq_div_pow]
    omega
  have h1 := step_bounds 4 (rfl : q1 = q0 + q0 >>> 4) (by omega)
  have h2 := step_bounds 8 (rfl : q2 = q1 + q1 >>> 8) (by omega)
  have h3 := step_bounds 16 (rfl : q3 = q2 + q2 >>> 16) (by omega)
  have h4 := step_bounds 32 (rfl : q4 = q3 + q3 >>> 32) (by omega)
  have h5 := step_bounds 64 (rfl : q5 = q4 + q4 >>> 64) (by omega)
  have hq : q.toNat = q5.toNat / 2 ^ 3 := by
    rw [← Nat.shiftRight_eq_div_pow]
    exact BitVec.toNat_ushiftRight ..
  -- the factors have the product 16 / 15
  have hlow : 10 * q.toNat ≤ u.toNat := by omega
  have hhigh : u.toNat < 10 * q.toNat + 20 := by omega
  have hr : r.toNat = u.toNat - 10 * q.toNat := by
    simp only [r, BitVec.toNat_setWidth, BitVec.toNat_sub, BitVec.toNat_add, BitVec.toNat_shiftLeft,
      Nat.shiftLeft_eq]
    omega
  clear h0 h1 h2 h3 h4 h5 hq
  have hc : c.toNat = if r.toNat < 10 then 0 else 1 := by
    simp only [c, BitVec.toNat_ushiftRight, BitVec.toNat_add, BitVec.toNat_ofNat,
      Nat.shiftRight_eq_div_pow]
    split <;> omega
  simp only [BitVec.toNat_add, BitVec.toNat_sub, BitVec.toNat_mul, BitVec.toNat_setWidth,
    BitVec.toNat_ofNat, hc]
  split <;> omega

end Xahau.Number
