import Mathlib

/-! # Totals over a finite type

The total of a function over a finite type, and how it changes with the function. A change that is
confined to a list is added up over the list, each element once. -/

namespace Total

open Function List

variable {ι α M : Type*} [Finite ι] [AddCommGroup M] {f g : ι → M}

/-- The total of a function. -/
noncomputable def total (f : ι → M) : M := ∑ᶠ i, f i

/-- Functions that agree outside a list differ in their totals by the list. -/
theorem total_sub_total [DecidableEq ι] {l : List ι} (h : ∀ i, i ∉ l → f i = g i) :
    total f - total g = (l.dedup.map fun i => f i - g i).sum := by
  have hsup : (Function.support fun i => f i - g i) ⊆ l.dedup.toFinset := by
    intro i hi
    rw [Finset.mem_coe, mem_toFinset, mem_dedup]
    by_contra hmem
    exact hi (sub_eq_zero.mpr (h i hmem))
  unfold total
  rw [← finsum_sub_distrib (Set.toFinite _) (Set.toFinite _),
    finsum_eq_sum_of_support_subset _ hsup, sum_toFinset _ (nodup_dedup l)]

theorem total_update [DecidableEq ι] (a : ι → α) (w : α → M) (i : ι) (x : α) :
    total (fun j => w (update a i x j)) = total (fun j => w (a j)) + (w x - w (a i)) := by
  have hoff : ∀ j, j ∉ [i] → w (update a i x j) = w (a j) := by
    intro j hj
    rw [update_of_ne (fun heq => hj (mem_singleton.mpr heq))]
  have hsub := total_sub_total hoff
  rw [dedup_eq_self.mpr (nodup_singleton i), map_singleton, sum_singleton,
    update_self] at hsub
  rw [← hsub]
  abel

end Total
