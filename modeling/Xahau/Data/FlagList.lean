import Mathlib

/-! # Lists of keys with a flag

Keys are gathered one after another. A key that comes again keeps its place, and its flag is raised
if one of its flags was. The first entry of a key counts, so what is appended does not matter for
keys that are there. -/

namespace FlagList

variable {κ : Type*} [DecidableEq κ]

/-- Add a key with a flag at the end, or raise the flag of its entry. -/
def raise : List (κ × Bool) → κ × Bool → List (κ × Bool)
  | [], p => [p]
  | q :: l, p => if q.1 = p.1 then (q.1, q.2 || p.2) :: l else q :: raise l p

/-- The keys of a list, each with its flags taken together. -/
def gather (l : List (κ × Bool)) : List (κ × Bool) := l.foldl raise []

/-- What a list says of a key: the flag of its first entry. -/
def first (k : κ) : List (κ × Bool) → Option Bool
  | [] => none
  | q :: l => if q.1 = k then some q.2 else first k l

section

variable (k : κ) (l l' : List (κ × Bool))

theorem first_append : first k (l ++ l') = (first k l).or (first k l') := by
  induction l with
  | nil => rfl
  | cons q l ih =>
    rw [List.cons_append, first, first]
    split
    · rfl
    · exact ih

theorem first_map (b : Bool) (ks : List κ) :
    first k (ks.map fun k => (k, b)) = if k ∈ ks then some b else none := by
  induction ks with
  | nil => rfl
  | cons k' ks ih =>
    rw [List.map_cons, first]
    by_cases hk : k' = k
    · rw [if_pos hk, if_pos (List.mem_cons.mpr (.inl hk.symm))]
    · rw [if_neg hk, ih]
      simp only [List.mem_cons, Ne.symm hk, false_or]

theorem first_raise (p : κ × Bool) :
    first k (raise l p) = if p.1 = k then some ((first k l).getD false || p.2) else first k l := by
  induction l with
  | nil =>
    rw [raise, first, first, Option.getD_none, Bool.false_or]
    rfl
  | cons q l ih =>
    rw [raise]
    by_cases hq : q.1 = p.1
    · rw [if_pos hq, first, first, ← hq]
      split <;> rfl
    rw [if_neg hq, first, first, ih]
    by_cases hk : q.1 = k
    · rw [if_pos hk, if_pos hk, if_neg]
      exact fun hp => hq (hk.trans hp.symm)
    · rw [if_neg hk, if_neg hk]

/-- **What the list says of a key**: its flag was raised, or it was there without. -/
theorem first_gather :
    first k (gather l)
      = if (k, true) ∈ l then some true else if (k, false) ∈ l then some false else none := by
  -- the flags taken together, after those of an initial list
  have hfold : ∀ acc : List (κ × Bool), first k (l.foldl raise acc) =
      if (k, true) ∈ l then some true
      else if (k, false) ∈ l then some ((first k acc).getD false) else first k acc := by
    induction l with
    | nil => exact fun _ => rfl
    | cons p l ih =>
      intro acc
      obtain ⟨k', b⟩ := p
      rw [List.foldl_cons, ih, first_raise]
      by_cases hk : k' = k
      · subst hk
        rcases b with _ | _ <;> simp
      · have hne : ∀ b', (k, b') ≠ (k', b) := fun b' heq => hk (congrArg Prod.fst heq).symm
        simp only [hk, if_false, List.mem_cons, hne, false_or]
  rw [gather, hfold]
  rfl

end

end FlagList
