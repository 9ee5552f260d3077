import Mathlib

/-! # Partial bijections

A partial bijection with a pair taken away or added, and the number of its pairs. -/

namespace PartialBijection

open Option

variable {α β : Type*}

/-- Take away the pair of an element. -/
def erase [DecidableEq α] (f : α ≃. β) (a : α) : α ≃. β where
  toFun x := if x = a then none else f x
  invFun y := if f.symm y = some a then none else f.symm y
  inv x y := by
    have hinv : f.symm y = some x ↔ f x = some y := f.eq_some_iff
    by_cases hx : x = a
    · subst hx
      by_cases hy : f.symm y = some x
      · simp [hy]
      · simp [hy]
    · by_cases hy : f.symm y = some a
      · have hne : f x ≠ some y := by
          intro hxy
          rw [← hinv, hy] at hxy
          exact hx (Option.some.inj hxy).symm
        simp [hx, hy, hne]
      · simpa [hx, hy] using hinv

/-- Add a pair of elements that have no pair yet. -/
def insert [DecidableEq α] [DecidableEq β] (f : α ≃. β) (a : α) (b : β) (ha : f a = none)
    (hb : f.symm b = none) : α ≃. β where
  toFun x := if x = a then some b else f x
  invFun y := if y = b then some a else f.symm y
  inv x y := by
    have hinv : f.symm y = some x ↔ f x = some y := f.eq_some_iff
    by_cases hx : x = a
    · subst hx
      by_cases hy : y = b
      · simp [hy]
      · have hne : f.symm y ≠ some x := by
          rw [Ne, hinv, ha]
          exact nofun
        simp [hy, hne, Ne.symm hy]
    · by_cases hy : y = b
      · subst hy
        have hne : f x ≠ some y := by
          rw [Ne, ← hinv, hb]
          exact nofun
        simp [hx, hne, Ne.symm hx]
      · simpa [hx, hy] using hinv

section

variable [DecidableEq α] {f : α ≃. β} {a x : α} {b y : β}

theorem erase_apply : erase f a x = if x = a then none else f x := rfl

theorem erase_symm_apply : (erase f a).symm y = if f.symm y = some a then none else f.symm y := rfl

theorem erase_eq_self (h : f a = none) : erase f a = f := by
  ext x : 1
  rw [erase_apply]
  by_cases hx : x = a
  · rw [if_pos hx, hx, h]
  · rw [if_neg hx]

theorem insert_apply [DecidableEq β] (ha : f a = none) (hb : f.symm b = none) :
    insert f a b ha hb x = if x = a then some b else f x := rfl

theorem insert_symm_apply [DecidableEq β] (ha : f a = none) (hb : f.symm b = none) :
    (insert f a b ha hb).symm y = if y = b then some a else f.symm y := rfl

end

/-! ## The number of pairs -/

/-- How many elements have a partner. -/
noncomputable def size (f : α ≃. β) : ℕ := { x | f x ≠ none }.ncard

theorem size_bot : size (⊥ : α ≃. β) = 0 := by simp [size]

theorem ncard_partners (f : α ≃. β) : { b | f.symm b ≠ none }.ncard = size f := by
  have hget : ∀ a (ha : f a ≠ none), f a = some ((f a).get (isSome_iff_ne_none.mpr ha)) :=
    fun a ha => (some_get _).symm
  refine (Set.ncard_congr (fun a ha => (f a).get (isSome_iff_ne_none.mpr ha)) ?_ ?_ ?_).symm
  · intro a ha
    show f.symm _ ≠ none
    rw [f.eq_some_iff.mpr (hget a ha)]
    exact nofun
  · intro a a' ha ha' heq
    refine f.inj (hget a ha) ?_
    rw [heq]
    exact hget a' ha'
  intro b hb
  obtain ⟨a, ha⟩ := ne_none_iff_exists'.mp hb
  have hab : f a = some b := f.eq_some_iff.mp ha
  have hne : f a ≠ none := by simp [hab]
  exact ⟨a, hne, get_of_eq_some _ hab⟩

section

variable [Finite α] {f : α ≃. β} {a : α} {b : β}

theorem size_erase [DecidableEq α] (h : f a ≠ none) : size (erase f a) + 1 = size f := by
  have hset : { x | erase f a x ≠ none } = { x | f x ≠ none } \ {a} := by
    ext x
    by_cases hx : x = a <;> simp [erase_apply, hx]
  unfold size
  rw [hset, Set.ncard_sdiff_singleton_add_one (by exact h) (Set.toFinite _)]

theorem size_erase_add [DecidableEq α] (f : α ≃. β) (a : α) :
    size (erase f a) + (if (f a).isSome then 1 else 0) = size f := by
  cases ha : f a with
  | none =>
    rw [erase_eq_self ha]
    rfl
  | some b => exact size_erase (by simp [ha])

theorem size_insert [DecidableEq α] [DecidableEq β] (ha : f a = none) (hb : f.symm b = none) :
    size (insert f a b ha hb) = size f + 1 := by
  have hset : { x | insert f a b ha hb x ≠ none } = Insert.insert a { x | f x ≠ none } := by
    ext x
    by_cases hx : x = a <;> simp [insert_apply, hx]
  unfold size
  rw [hset, Set.ncard_insert_of_notMem (by simp [ha]) (Set.toFinite _)]

theorem finite_partners (f : α ≃. β) : { b | f.symm b ≠ none }.Finite := by
  have hran : { b | f.symm b ≠ none } = Set.preimage some (Set.range f) := by
    ext b
    show f.symm b ≠ none ↔ ∃ a, f a = some b
    rw [ne_none_iff_exists']
    exact exists_congr fun a => f.eq_some_iff
  rw [hran]
  exact (Set.finite_range f).preimage (some_injective β).injOn

theorem size_le_card (f : α ≃. β) : size f ≤ Nat.card α := Set.ncard_le_card _

end

end PartialBijection
