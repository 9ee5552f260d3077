import Mathlib

/-! # Occurrences in a family of lists

The places at which the lists of a family have an element with a property, and their number when one
of the lists is replaced. -/

namespace Occurrences

open Function

variable {ι α : Type*} (P : α → Bool)

/-- The positions of a list at which there is an element with the property. -/
def positions (l : List α) : Set ℕ := { n | ∃ a, l[n]? = some a ∧ P a = true }

/-- The places of a family of lists at which there is an element with the property. -/
def places (f : ι → List α) : Set (ι × ℕ) := { p | p.2 ∈ positions P (f p.1) }

theorem finite_positions (l : List α) : (positions P l).Finite := by
  apply (Set.finite_lt_nat l.length).subset
  rintro n ⟨a, ha, -⟩
  exact (List.getElem?_eq_some_iff.mp ha).1

theorem positions_cons (a : α) (l : List α) :
    positions P (a :: l) = (if P a = true then {0} else ∅) ∪ Nat.succ '' positions P l := by
  ext n
  cases n with
  | zero => simp [positions]
  | succ n => by_cases hP : P a = true <;> simp [positions, hP]

/-- The number of positions is the number of elements with the property. -/
theorem ncard_positions (l : List α) : (positions P l).ncard = l.countP P := by
  induction l with
  | nil => simp [positions]
  | cons a l ih =>
    have hdis : Disjoint (if P a = true then {0} else ∅ : Set ℕ)
        (Nat.succ '' positions P l) := by
      rw [Set.disjoint_right]
      rintro _ ⟨n, -, rfl⟩
      split <;> simp
    have hfin : (if P a = true then {0} else ∅ : Set ℕ).Finite := by
      split
      · exact Set.finite_singleton 0
      · exact Set.finite_empty
    rw [positions_cons, Set.ncard_union_eq hdis hfin ((finite_positions P l).image _),
      Set.ncard_image_of_injective _ Nat.succ_injective, ih, List.countP_cons, Nat.add_comm]
    by_cases hP : P a = true <;> simp [hP]

theorem places_eq_union (f : ι → List α) (i : ι) :
    places P f = { p | p.1 ≠ i ∧ p ∈ places P f } ∪ Prod.mk i '' positions P (f i) := by
  ext ⟨j, n⟩
  by_cases hj : j = i
  · subst hj
    simp [places]
  · simp [places, hj, Ne.symm hj]

section

variable [Finite ι]

section

variable (f : ι → List α) (i : ι)

theorem finite_places : (places P f).Finite := by
  apply (Set.finite_iUnion fun i => (finite_positions P (f i)).image (Prod.mk i)).subset
  rintro ⟨i, n⟩ hn
  exact Set.mem_iUnion.mpr ⟨i, n, hn, rfl⟩

/-- The number of places is that of one member and that of the others. -/
theorem ncard_places :
    (places P f).ncard = { p | p.1 ≠ i ∧ p ∈ places P f }.ncard + (f i).countP P := by
  have hdis : Disjoint { p | p.1 ≠ i ∧ p ∈ places P f } (Prod.mk i '' positions P (f i)) := by
    rw [Set.disjoint_right]
    rintro _ ⟨n, -, rfl⟩ hmem
    exact hmem.1 rfl
  have hfin : { p | p.1 ≠ i ∧ p ∈ places P f }.Finite := (finite_places P f).subset fun p hp => hp.2
  conv_lhs => rw [places_eq_union P f i]
  rw [Set.ncard_union_eq hdis hfin ((finite_positions P (f i)).image _),
    Set.ncard_image_of_injective _ (Prod.mk_right_injective i), ncard_positions]

/-- A member of the family has no more elements with the property than the family. -/
theorem countP_le_ncard_places : (f i).countP P ≤ (places P f).ncard := by
  rw [ncard_places P f i]
  exact Nat.le_add_left ..

end

/-- **The number of places when one member is replaced.** -/
theorem ncard_places_update [DecidableEq ι] (f : ι → List α) (i : ι) (l : List α) :
    (places P (update f i l)).ncard + (f i).countP P = (places P f).ncard + l.countP P := by
  have hoths : { p | p.1 ≠ i ∧ p ∈ places P (update f i l) }
      = { p | p.1 ≠ i ∧ p ∈ places P f } := by
    ext ⟨j, n⟩
    refine and_congr_right fun hj => ?_
    show n ∈ positions P (update f i l j) ↔ n ∈ positions P (f j)
    rw [update_of_ne hj]
  rw [ncard_places P (update f i l) i, ncard_places P f i, hoths, update_self]
  omega

end

end Occurrences
