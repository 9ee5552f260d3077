import Mathlib

/-! # Who supports what

Each voter has at most one vote. The supporters of a value are those who vote for it; what their number
becomes when one voter changes their vote. -/

namespace Supporters

variable {κ δ : Type*} {votes votes' : κ → Option δ} {k : κ} {d : δ}

/-- The voters who vote for a value. -/
def support (votes : κ → Option δ) (d : δ) : Set κ := { k | votes k = some d }

section

variable (hs : ∀ k', k' ≠ k → votes' k' = votes k')

include hs

theorem support_eq (h : votes k ≠ some d)
    (h' : votes' k ≠ some d) : support votes' d = support votes d := by
  ext k'
  by_cases hk : k' = k
  · subst hk
    simp [support, h, h']
  · simp [support, hs k' hk]

theorem support_subset (h' : votes' k ≠ some d) : support votes' d ⊆ support votes d := by
  intro k' hk'
  have hne : k' ≠ k := by
    rintro rfl
    exact h' hk'
  exact (hs k' hne).symm.trans hk'

theorem support_join (hfin : (support votes d).Finite)
    (h : votes k ≠ some d) (h' : votes' k = some d) :
    (support votes' d).ncard = (support votes d).ncard + 1 := by
  have hins : support votes' d = insert k (support votes d) := by
    ext k'
    by_cases hk : k' = k
    · subst hk
      simp [support, h']
    · simp [support, hs k' hk, hk]
  rw [hins, Set.ncard_insert_of_notMem (by exact h) hfin]

theorem support_leave
    (hfin : (support votes d).Finite) (h : votes k = some d) (h' : votes' k ≠ some d) :
    (support votes' d).ncard + 1 = (support votes d).ncard := by
  have hrem : support votes' d = support votes d \ {k} := by
    ext k'
    by_cases hk : k' = k
    · subst hk
      simp [support, h']
    · simp [support, hs k' hk, hk]
  rw [hrem, Set.ncard_sdiff_singleton_add_one (by exact h) hfin]

end

end Supporters
