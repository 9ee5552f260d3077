import Mathlib

/-! # Circular successors

The elements of a set of numbers, each followed by the next larger one and the last by zero, form a
cycle. Removing an element joins its neighbours, and a new largest element goes between the last one
and zero. -/

/-- `q` follows `p` in the cycle of the elements of `S`. -/
structure Follows (S : Set ℕ) (p q : ℕ) : Prop where
  left : p ∈ S
  right : q ∈ S
  /-- Nothing lies between the two, or the cycle starts again. -/
  gap : (p < q ∧ ∀ r ∈ S, r ≤ p ∨ q ≤ r) ∨ (q = 0 ∧ ∀ r ∈ S, r ≤ p)

namespace Follows

variable {S : Set ℕ} {p q m : ℕ}

theorem singleton : Follows {0} 0 0 := by
  refine ⟨rfl, rfl, .inr ⟨rfl, ?_⟩⟩
  rintro r rfl
  exact le_rfl

theorem right_unique {q' : ℕ} (h : Follows S p q) (h' : Follows S p q') : q = q' := by
  rcases h.gap with ⟨hlt, hgap⟩ | ⟨rfl, hlast⟩
  · rcases h'.gap with ⟨hlt', hgap'⟩ | ⟨rfl, hlast'⟩
    · have := hgap q' h'.right
      have := hgap' q h.right
      omega
    · have := hlast' q h.right
      omega
  · rcases h'.gap with ⟨hlt', hgap'⟩ | ⟨rfl, hlast'⟩
    · have := hlast q' h'.right
      omega
    · rfl

theorem left_unique {p' : ℕ} (h : Follows S p q) (h' : Follows S p' q) : p = p' := by
  have hmem := h.left
  have hmem' := h'.left
  rcases h.gap with ⟨hlt, hgap⟩ | ⟨rfl, hlast⟩
  · rcases h'.gap with ⟨hlt', hgap'⟩ | ⟨rfl, hlast'⟩
    · have := hgap p' hmem'
      have := hgap' p hmem
      omega
    · omega
  · rcases h'.gap with ⟨hlt', hgap'⟩ | ⟨-, hlast'⟩
    · omega
    · exact le_antisymm (hlast' p hmem) (hlast p' hmem')

theorem le_of_zero (h : Follows S p 0) : ∀ r ∈ S, r ≤ p := by
  rcases h.gap with ⟨hlt, -⟩ | ⟨-, hlast⟩
  · exact absurd hlt (Nat.not_lt_zero p)
  · exact hlast

theorem lt_of_ne_zero (h : Follows S p q) (hq : q ≠ 0) : p < q := by
  rcases h.gap with ⟨hlt, -⟩ | ⟨rfl, -⟩
  · exact hlt
  · exact absurd rfl hq

theorem ne_of_ne_zero (h : Follows S p q) (hq : q ≠ 0) : p ≠ q := (h.lt_of_ne_zero hq).ne

theorem eq_zero_of_self (h : Follows S p p) : p = 0 ∧ ∀ r ∈ S, r = 0 := by
  by_cases hp : p = 0
  · subst hp
    exact ⟨rfl, fun r hr => Nat.le_zero.mp (h.le_of_zero r hr)⟩
  · exact absurd rfl (h.ne_of_ne_zero hp)

theorem join (hm : m ≠ 0) (h : Follows S p m) (h' : Follows S m q) : Follows (S \ {m}) p q := by
  have hlt := h.lt_of_ne_zero hm
  have hpm : p ≠ m := hlt.ne
  have hqm : q ≠ m := by
    rintro rfl
    exact hm h'.eq_zero_of_self.1
  refine ⟨⟨h.left, hpm⟩, ⟨h'.right, hqm⟩, ?_⟩
  have hbef : ∀ r ∈ S, r ≤ p ∨ m ≤ r := by
    rcases h.gap with ⟨-, hgap⟩ | ⟨h0, -⟩
    · exact hgap
    · exact absurd h0 hm
  rcases h'.gap with ⟨hlt', hgap'⟩ | ⟨rfl, hlast'⟩
  · refine .inl ⟨hlt.trans hlt', ?_⟩
    rintro r ⟨hr, hrm⟩
    have hne : r ≠ m := hrm
    have := hbef r hr
    have := hgap' r hr
    omega
  · refine .inr ⟨rfl, ?_⟩
    rintro r ⟨hr, hrm⟩
    have hne : r ≠ m := hrm
    have := hbef r hr
    have := hlast' r hr
    omega

theorem diff (h : Follows S p q) (hp : p ≠ m) (hq : q ≠ m) : Follows (S \ {m}) p q := by
  refine ⟨⟨h.left, hp⟩, ⟨h.right, hq⟩, ?_⟩
  rcases h.gap with ⟨hlt, hgap⟩ | ⟨h0, hlast⟩
  · exact .inl ⟨hlt, fun r hr => hgap r hr.1⟩
  · exact .inr ⟨h0, fun r hr => hlast r hr.1⟩

theorem insert_last (h : Follows S p 0) (hm : p < m) : Follows (insert m S) p m := by
  refine ⟨Set.mem_insert_of_mem m h.left, Set.mem_insert m S, .inl ⟨hm, ?_⟩⟩
  intro r hr
  rcases Set.mem_insert_iff.mp hr with rfl | hr
  · exact .inr le_rfl
  · exact .inl (h.le_of_zero r hr)

theorem insert_zero (h : Follows S p 0) (hm : p < m) : Follows (insert m S) m 0 := by
  refine ⟨Set.mem_insert m S, Set.mem_insert_of_mem m h.right, .inr ⟨rfl, ?_⟩⟩
  intro r hr
  rcases Set.mem_insert_iff.mp hr with rfl | hr
  · exact le_rfl
  · exact (h.le_of_zero r hr).trans hm.le

theorem insert_of_ne_zero (h : Follows S p q) (hq : q ≠ 0) (hm : q ≤ m) :
    Follows (insert m S) p q := by
  refine ⟨Set.mem_insert_of_mem m h.left, Set.mem_insert_of_mem m h.right, .inl ?_⟩
  rcases h.gap with ⟨hlt, hgap⟩ | ⟨h0, -⟩
  · refine ⟨hlt, fun r hr => ?_⟩
    rcases Set.mem_insert_iff.mp hr with rfl | hr
    · exact .inr hm
    · exact hgap r hr
  · exact absurd h0 hq

theorem isChain_of_sortedLT {l : List ℕ} (hsor : l.SortedLT) (hmem : ∀ r, r ∈ l ↔ r ∈ S) :
    l.IsChain (Follows S) := by
  rw [List.isChain_iff_forall_rel_of_append_cons_cons]
  rintro a b l₁ l₂ rfl
  have hpai := hsor.pairwise
  rw [List.pairwise_append, List.pairwise_cons, List.pairwise_cons] at hpai
  obtain ⟨-, ⟨haft, haft', -⟩, hbef⟩ := hpai
  refine ⟨(hmem a).mp (by simp), (hmem b).mp (by simp), .inl ⟨haft b (by simp), ?_⟩⟩
  intro r hr
  rw [← hmem, List.mem_append, List.mem_cons, List.mem_cons] at hr
  rcases hr with hr | rfl | rfl | hr
  · exact .inl (hbef r hr a (by simp)).le
  · exact .inl le_rfl
  · exact .inr le_rfl
  · exact .inr (haft' r hr).le

end Follows
