import Mathlib

/-! # Lists as counts

A list without repetitions counts the elements of a set. -/

namespace Cardinality

variable {α : Type*} {l : List α} {S : Set α}

theorem ncard_of_nodup (hl : l.Nodup) (h : ∀ a, a ∈ l ↔ a ∈ S) : S.ncard = l.length := by
  classical
  have hset : S = (l.toFinset : Set α) := by
    ext a
    rw [List.coe_toFinset]
    exact (h a).symm
  rw [hset, Set.ncard_coe_finset, List.toFinset_card_of_nodup hl]

/-- A list of distinct elements of a set is not longer than the set is large. -/
theorem length_le_ncard (hl : l.Nodup) (hS : S.Finite) (h : ∀ a ∈ l, a ∈ S) :
    l.length ≤ S.ncard := by
  rw [← ncard_of_nodup (S := { a | a ∈ l }) hl fun _ => Iff.rfl]
  exact Set.ncard_le_ncard h hS

theorem length_lt_ncard (hl : l.Nodup) (hS : S.Finite) (h : ∀ a ∈ l, a ∈ S) {a : α} (ha : a ∈ S)
    (hnot : a ∉ l) : l.length < S.ncard :=
  length_le_ncard (List.nodup_cons.mpr ⟨hnot, hl⟩) hS fun _ hb => by
    rcases List.mem_cons.mp hb with rfl | hb
    · exact ha
    · exact h _ hb

end Cardinality
