import Mathlib

/-! # Ordered maps

A map as the list of its entries in the order of the keys, which is a strict total order. An entry
is emplaced: when the key has a value already, the value stays. -/

namespace OrderedMap

open List

variable {α β : Type*} (lt : α → α → Prop) [DecidableRel lt]

/-- An entry is added, unless its key is there. -/
def emplace (k : α) (v : β) : List (α × β) → List (α × β)
  | [] => [(k, v)]
  | (k', v') :: m =>
    if lt k k' then (k, v) :: (k', v') :: m
    else if lt k' k then (k', v') :: emplace k v m
    else (k', v') :: m

/-- The entries of a list are emplaced one after the other. -/
def emplaceAll (m l : List (α × β)) : List (α × β) :=
  l.foldl (fun m entry => emplace lt entry.1 entry.2 m) m

def keys (m : List (α × β)) : List α := m.map Prod.fst

@[simp] theorem keys_nil : keys ([] : List (α × β)) = [] := rfl

@[simp] theorem keys_cons (entry : α × β) (m : List (α × β)) :
    keys (entry :: m) = entry.1 :: keys m := rfl

theorem mem_keys_emplace [Std.Trichotomous lt] (k : α) (v : β) (m : List (α × β)) (a : α) :
    a ∈ keys (emplace lt k v m) ↔ a = k ∨ a ∈ keys m := by
  induction m with
  | nil => simp [emplace]
  | cons entry m ih =>
    obtain ⟨k', v'⟩ := entry
    rw [emplace]
    split
    · rw [keys_cons, mem_cons]
    rename_i hlt
    by_cases hgt : lt k' k
    · rw [if_pos hgt, keys_cons, keys_cons, mem_cons, mem_cons, ih]
      exact or_left_comm
    -- neither key is below the other one
    obtain rfl : k = k' := Std.Trichotomous.trichotomous _ _ hlt hgt
    rw [if_neg hgt, keys_cons, mem_cons, or_self_left]

theorem pairwise_keys_emplace [Std.Trichotomous lt] [IsTrans α lt] (k : α) (v : β)
    {m : List (α × β)} (h : (keys m).Pairwise lt) : (keys (emplace lt k v m)).Pairwise lt := by
  induction m with
  | nil => exact pairwise_singleton lt k
  | cons entry m ih =>
    obtain ⟨k', v'⟩ := entry
    have hcons := h
    rw [keys_cons, pairwise_cons] at hcons
    rw [emplace]
    split
    next hlt =>
      rw [keys_cons, pairwise_cons]
      refine ⟨fun a ha => ?_, h⟩
      rcases mem_cons.1 ha with rfl | ha
      · exact hlt
      · exact IsTrans.trans _ _ _ hlt (hcons.1 a ha)
    · split
      next hgt =>
        rw [keys_cons, pairwise_cons]
        refine ⟨fun a ha => ?_, ih hcons.2⟩
        rcases (mem_keys_emplace lt k v m a).1 ha with rfl | ha
        · exact hgt
        · exact hcons.1 a ha
      · exact h

theorem mem_keys_emplaceAll [Std.Trichotomous lt] (m l : List (α × β)) (a : α) :
    a ∈ keys (emplaceAll lt m l) ↔ a ∈ keys m ∨ a ∈ keys l := by
  induction l generalizing m with
  | nil => simp [emplaceAll]
  | cons entry l ih =>
    have hrest := ih (emplace lt entry.1 entry.2 m)
    rw [mem_keys_emplace] at hrest
    rw [keys_cons, mem_cons, or_left_comm, ← or_assoc]
    exact hrest

/-- The keys of a map that a loop of insertions builds are in strict order. -/
theorem pairwise_keys_emplaceAll [Std.Trichotomous lt] [IsTrans α lt] {m : List (α × β)}
    (h : (keys m).Pairwise lt) (l : List (α × β)) : (keys (emplaceAll lt m l)).Pairwise lt := by
  induction l generalizing m with
  | nil => exact h
  | cons entry l ih => exact ih (pairwise_keys_emplace lt entry.1 entry.2 h)

end OrderedMap
