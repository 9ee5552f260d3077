import Xahau.Guard.CheckGuard

/-! # The rounding of the worst case

`compute_wce` multiplies what it has counted in a block by the quotient of the block's bound and
that of the block around it, and keeps the integral part. Here the result is compared with the sum
that no rounding has touched, in which an instruction counts the product of the quotients of all
blocks around it. -/

namespace Xahau.Guard

open Checked (bind_eq_ok)

def Block.iterationBound : Block → Nat
  | .mk bound _ _ _ => bound

mutual

/-- The instructions of a block and those in it, where one of the block itself counts `m` and the
quotients of the bounds are not rounded. -/
def Block.exact : (m : ℚ) → Block → ℚ
  | m, .mk bound count _ children => m * count + exacts m bound children

/-- The sum over the blocks in a block with the bound. -/
def exacts : (m : ℚ) → (bound : Nat) → List Block → ℚ
  | _, _, [] => 0
  | m, bound, child :: children =>
    child.exact (m * (child.iterationBound / bound)) + exacts m bound children

end

mutual

/-- What rounding can cost: an instruction of the block around, for each block whose bound is not a
multiple of the bound around it. -/
def Block.slack : (m : ℚ) → Block → ℚ
  | m, .mk bound _ _ children => slacks m bound children

/-- The cost of rounding in the blocks in a block with the bound. -/
def slacks : (m : ℚ) → (bound : Nat) → List Block → ℚ
  | _, _, [] => 0
  | m, bound, child :: children =>
    (if bound ∣ child.iterationBound then 0 else m) +
      child.slack (m * (child.iterationBound / bound)) + slacks m bound children

end

/-- The integral part of a product with a quotient is the product or less than one below it. -/
theorem mul_quotient_le (x bound outer : Nat) (houter : outer ≠ 0) : (x * (bound / outer) : ℚ) ≤
      exactScale x bound outer + if outer ∣ bound then 0 else 1 := by
  have hpos : (0 : ℚ) < outer := by exact_mod_cast Nat.pos_of_ne_zero houter
  rw [← mul_div_assoc, div_le_iff₀ hpos]
  split
  · next hdvd =>
    have heq : x * bound = exactScale x bound outer * outer :=
      (Nat.div_mul_cancel (hdvd.mul_left x)).symm
    rw [add_zero]
    exact_mod_cast heq.le
  · have hlt : x * bound < (exactScale x bound outer + 1) * outer := by
      rw [mul_comm _ outer]
      exact Nat.lt_mul_div_succ _ (Nat.pos_of_ne_zero houter)
    exact_mod_cast hlt.le

/-- A rule for the blocks in a block gives one for their sum. -/
theorem exacts_le {levels bound : Nat} {m : ℚ} {children : List Block} {below : List Nat}
    (hchild : ∀ child w, computeWce exactScale levels (some bound) child = some w →
      child.exact (m * (child.iterationBound / bound)) ≤
        m * w + (if bound ∣ child.iterationBound then 0 else m) +
          child.slack (m * (child.iterationBound / bound)))
    (h : children.mapM (computeWce exactScale levels (some bound)) = some below) :
    exacts m bound children ≤ m * (below.sum : ℕ) + slacks m bound children := by
  induction children generalizing below with
  | nil =>
    cases h
    simp [exacts, slacks]
  | cons child children ih =>
    simp only [List.mapM_cons, Option.bind_eq_bind, Option.bind_eq_some_iff, Option.pure_def,
      Option.some.injEq] at h
    obtain ⟨w, hw, below, hbelow, rfl⟩ := h
    have hfirst := hchild child w hw
    have hrest := ih hbelow
    rw [exacts, slacks, List.sum_cons, Nat.cast_add]
    linarith

/-- **What a block in another counts**, against the product without rounding. -/
theorem exact_le_of_computeWce {levels outer w : Nat} {m : ℚ} (hm : 0 ≤ m) {block : Block}
    (h : computeWce exactScale levels (some outer) block = some w) :
    block.exact (m * (block.iterationBound / outer)) ≤
      m * w + (if outer ∣ block.iterationBound then 0 else m) +
        block.slack (m * (block.iterationBound / outer)) := by
  induction levels generalizing outer w m block with
  | zero => simp [computeWce] at h
  | succ levels ih =>
    obtain ⟨bound, count, start, children⟩ := block
    simp only [computeWce, Option.bind_eq_bind, Option.bind_eq_some_iff] at h
    obtain ⟨below, hbelow, h⟩ := h
    have hquot : (0 : ℚ) ≤ bound / outer := div_nonneg bound.cast_nonneg outer.cast_nonneg
    have hchildren := exacts_le (fun child w => ih (mul_nonneg hm hquot)) hbelow
    -- the block's own instructions and what is left of those below are scaled together
    have hscaled : m * (((count + below.sum : ℕ) : ℚ) * (bound / outer)) ≤
        m * w + if outer ∣ bound then 0 else m := by
      split at h
      · next hzero =>
        have hite : (0 : ℚ) ≤ if outer ∣ bound then 0 else m := by split <;> simp [hm]
        have hw := mul_nonneg hm (w.cast_nonneg (α := ℚ))
        rw [hzero, Nat.cast_zero, div_zero, mul_zero, mul_zero, ← hzero]
        exact add_nonneg hw hite
      · next houter =>
        cases h
        have hle := mul_quotient_le (count + below.sum) bound outer houter
        have hmax : (exactScale (count + below.sum) bound outer : ℚ) ≤
            (max 1 (exactScale (count + below.sum) bound outer) : ℕ) := by
          exact_mod_cast le_max_right _ _
        calc m * (((count + below.sum : ℕ) : ℚ) * (bound / outer))
            ≤ m * ((max 1 (exactScale (count + below.sum) bound outer) : ℕ) +
                if outer ∣ bound then 0 else 1) :=
              mul_le_mul_of_nonneg_left (by linarith) hm
          _ = _ := by
              rw [mul_add]
              split <;> simp
    rw [Nat.cast_add] at hscaled
    change m * (bound / outer) * count + exacts (m * (bound / outer)) bound children ≤
      m * w + (if outer ∣ bound then 0 else m) + slacks (m * (bound / outer)) bound children
    linarith

/-- **The worst case of an accepted body** falls below the exact sum by rounding only. -/
theorem exact_le_worstCase (wasm : List UInt8) (startOffset : Nat) (endOffset : Int)
    (rules : GuardRules) (checked : CheckedBody)
    (h : checkGuard exactScale wasm startOffset endOffset rules = .ok checked) :
    checked.root.exact 1 ≤ checked.worstCase + checked.root.slack 1 := by
  simp only [checkGuard, bind_eq_ok] at h
  obtain ⟨⟨root, visited⟩, -, h⟩ := h
  split at h
  · cases h
  next worstCase hwce =>
  split at h
  · cases h
  cases h
  obtain ⟨bound, count, start, children⟩ := root
  simp only [computeWce, Option.bind_eq_bind, Option.bind_eq_some_iff, Option.some.injEq] at hwce
  obtain ⟨below, hbelow, rfl⟩ := hwce
  have hchildren := exacts_le (fun child w => exact_le_of_computeWce zero_le_one) hbelow
  simp only [Block.exact, Block.slack]
  rw [Nat.cast_add]
  linarith

/-- A loop with bound four in a loop with bound three. -/
def nestedBody : List UInt8 :=
  [0x03, 0x40, 0x41, 0x01, 0x41, 0x03, 0x10, 0x00, 0x03, 0x40, 0x41, 0x02, 0x41, 0x04, 0x10, 0x00,
    0x0B, 0x0B, 0x0B]

/-- Two instructions of the body itself, two of the outer loop and one of the inner make twelve;
rounding may cost three. -/
theorem nestedBody_le :
    ∃ checked, checkGuard exactScale nestedBody 0 19 ⟨0, 0, 3⟩ = .ok checked ∧
      checked.root.slack 1 = 3 ∧ (12 : ℚ) ≤ checked.worstCase + 3 := by
  have hchecked : ∃ checked, checkGuard exactScale nestedBody 0 19 ⟨0, 0, 3⟩ = .ok checked ∧
      checked.root.slack 1 = 3 ∧ checked.root.exact 1 = 12 := by
    decide +kernel
  obtain ⟨checked, hchecked, hslack, hexact⟩ := hchecked
  have hle := exact_le_worstCase nestedBody 0 19 ⟨0, 0, 3⟩ checked hchecked
  rw [hslack, hexact] at hle
  exact ⟨checked, hchecked, hslack, hle⟩

/-- **Rounding makes the worst case too small**: of the four thirds that the instruction of the
inner loop counts, one is left. -/
theorem nestedBody_rounded :
    ∃ checked, checkGuard exactScale nestedBody 0 19 ⟨0, 0, 3⟩ = .ok checked ∧
      checked.worstCase = 11 ∧ checked.root.exact 1 = 12 := by
  decide +kernel

end Xahau.Guard
