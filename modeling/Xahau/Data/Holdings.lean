import Mathlib

/-! # Holdings

Each of finitely many things has an owner or none. What an owner holds is a number, which changes by
one when a thing is given to them or taken from them. -/

namespace Holdings

open Function

variable {κ α : Type*}

/-- How many things belong to an owner. -/
noncomputable def holdings (owner : κ → Option α) (a : α) : ℕ := {k | owner k = some a}.ncard

theorem holdings_none (a : α) : holdings (fun _ : κ => none) a = 0 := by
  simp [holdings]

theorem holdings_pos [Finite κ] {owner : κ → Option α} {k : κ} {a : α} (h : owner k = some a) :
    0 < holdings owner a := by
  rw [holdings, Set.ncard_pos]
  exact ⟨k, h⟩

variable [DecidableEq κ] [DecidableEq α]

theorem holdings_eq_add [Finite κ] (owner : κ → Option α) (k : κ) (a : α) :
    holdings owner a =
      {k' | k' ≠ k ∧ owner k' = some a}.ncard + if owner k = some a then 1 else 0 := by
  rw [holdings]
  split
  next h =>
    rw [← Set.ncard_insert_of_notMem (a := k) (by simp) (Set.toFinite _)]
    congr 1
    ext k'
    by_cases hk : k' = k
    · subst hk
      simp [h]
    · simp [hk]
  next h =>
    rw [Nat.add_zero]
    congr 1
    ext k'
    by_cases hk : k' = k
    · subst hk
      simp [h]
    · simp [hk]

/-- **A thing changes its owner**: one holds one less, the other one more. -/
theorem holdings_update [Finite κ] (owner : κ → Option α) (k : κ) (o : Option α) (a : α) :
    holdings (update owner k o) a + (if owner k = some a then 1 else 0) =
      holdings owner a + if o = some a then 1 else 0 := by
  have hrest : {k' | k' ≠ k ∧ update owner k o k' = some a} =
      {k' | k' ≠ k ∧ owner k' = some a} := by
    ext k'
    refine and_congr_right fun hk => ?_
    rw [update_of_ne hk]
  rw [holdings_eq_add (update owner k o) k, holdings_eq_add owner k, hrest, update_self]
  exact Nat.add_right_comm _ _ _

end Holdings
