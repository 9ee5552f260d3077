import Mathlib

/-! # Tallies

A tally counts how often each key occurs in a list of keys. The keys of several ballots are counted
together; a ballot that repeats a key is counted as often as it repeats it. -/

namespace Tally

open List

variable {κ : Type*} [DecidableEq κ]

/-- A count for each key that occurs. -/
abbrev Counts (κ : Type*) := AList fun _ : κ => Nat

/-- Count one more occurrence of a key. -/
def increment (counts : Counts κ) (k : κ) : Counts κ :=
  counts.insert k ((counts.lookup k).getD 0 + 1)

/-- Count the keys of a ballot. -/
def addBallot (counts : Counts κ) (ballot : List κ) : Counts κ :=
  ballot.foldl increment counts

/-- The counts represent the multiset of keys that have been counted. -/
def Represents (counts : Counts κ) (keys : List κ) : Prop :=
  ∀ k, counts.lookup k = if keys.count k = 0 then none else some (keys.count k)

theorem represents_empty : Represents (∅ : Counts κ) [] := by
  intro k
  rw [AList.lookup_empty]
  rfl

section

variable {counts : Counts κ} {keys : List κ} (h : Represents counts keys)

include h

theorem Represents.increment (k : κ) : Represents (increment counts k) (keys ++ [k]) := by
  intro k'
  have hone : List.count k [k] = 1 := count_singleton_self
  have hgetD : (counts.lookup k).getD 0 = keys.count k := by
    rw [h k]
    split <;> simp_all
  unfold Tally.increment
  by_cases hk : k' = k
  · subst hk
    rw [AList.lookup_insert, hgetD, count_append, hone, if_neg (by omega)]
  · have hzero : List.count k' [k] = 0 := count_eq_zero.mpr (by simpa using hk)
    rw [AList.lookup_insert_ne hk, h k', count_append, hzero, Nat.add_zero]

theorem Represents.addBallot (ballot : List κ) :
    Represents (addBallot counts ballot) (keys ++ ballot) := by
  induction ballot generalizing counts keys with
  | nil =>
    rw [append_nil]
    exact h
  | cons k ballot ih =>
    have hrest := ih (h.increment k)
    rwa [append_assoc, singleton_append] at hrest

end

section

variable (ballots : List (List κ)) (k : κ)

/-- How many ballots list a key. -/
def listings : Nat :=
  ballots.countP fun ballot => decide (k ∈ ballot)

/-- How often ballots list a key again. -/
def repeats : Nat :=
  (ballots.map fun ballot => ballot.count k - 1).sum

/-- A key counts once for every ballot that lists it and for every repetition. -/
theorem count_flatten_eq : ballots.flatten.count k = listings ballots k + repeats ballots k := by
  unfold listings repeats
  induction ballots with
  | nil => rfl
  | cons ballot ballots ih =>
    rw [flatten_cons, count_append, ih, countP_cons, map_cons, sum_cons]
    by_cases hk : k ∈ ballot
    · have hpos : 0 < ballot.count k := count_pos_iff.mpr hk
      simp only [hk, decide_true, if_true]
      omega
    · have hzero : ballot.count k = 0 := count_eq_zero.mpr hk
      simp only [hk, decide_false, Bool.false_eq_true, if_false, hzero]
      omega

theorem listings_le_length :
    listings ballots k ≤ ballots.length := countP_le_length

end

theorem repeats_eq_zero_of_listings {ballots : List (List κ)} {k : κ}
    (h : listings ballots k = 0) : repeats ballots k = 0 := by
  unfold listings at h
  rw [countP_eq_zero] at h
  apply sum_eq_zero
  intro n hn
  obtain ⟨ballot, hmem, rfl⟩ := mem_map.mp hn
  have hnot : k ∉ ballot := by simpa using h ballot hmem
  show ballot.count k - 1 = 0
  rw [count_eq_zero.mpr hnot]

end Tally
