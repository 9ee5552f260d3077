import Mathlib

/-! # Lists of assignments

A list of keys with values, read from its beginning: a later assignment to a key replaces an earlier
one. This is the map that a loop of insertions builds. -/

namespace Assignments

open List

variable {α β : Type*}

section

variable {γ : Type*} (f : α → β → Option γ) (m : AList fun _ : α => β)

/-- The entries of a map, with some of them left out and the others transformed. -/
def pick : List (α × γ) :=
  m.entries.filterMap fun entry => (f entry.1 entry.2).map (Prod.mk entry.1)

theorem nodup_pick : ((pick f m).map Prod.fst).Nodup := by
  refine List.Sublist.nodup ?_ m.nodupKeys
  rw [pick, List.keys]
  induction m.entries with
  | nil => exact .slnil
  | cons entry entries ih =>
    rw [filterMap_cons]
    cases f entry.1 entry.2 with
    | none => exact ih.cons _
    | some v => exact ih.cons_cons _

end

variable [DecidableEq α]

/-- The value of a key after all assignments. -/
def lastValue : List (α × β) → α → Option β
  | [], _ => none
  | (k, v) :: l, a => (lastValue l a).or (if k = a then some v else none)

@[simp] theorem lastValue_nil (a : α) : lastValue ([] : List (α × β)) a = none := rfl

theorem lookup_foldl_insert (l : List (α × β)) (m : AList fun _ : α => β) (a : α) :
    (l.foldl (fun m p => m.insert p.1 p.2) m).lookup a = (lastValue l a).or (m.lookup a) := by
  induction l generalizing m with
  | nil => simp
  | cons p l ih =>
    obtain ⟨k, v⟩ := p
    rw [foldl_cons, ih, lastValue, Option.or_assoc]
    by_cases hk : k = a
    · subst hk
      simp
    · rw [AList.lookup_insert_ne (Ne.symm hk), if_neg hk, Option.none_or]

section

variable {l : List (α × β)} {a : α} {v : β}

theorem lastValue_eq_none (h : a ∉ l.map Prod.fst) : lastValue l a = none := by
  induction l with
  | nil => rfl
  | cons p l ih =>
    obtain ⟨k, v⟩ := p
    rw [map_cons, mem_cons, not_or] at h
    rw [lastValue, ih h.2, if_neg (Ne.symm h.1), Option.or_none]

theorem mem_of_lastValue (h : lastValue l a = some v) : (a, v) ∈ l := by
  induction l with
  | nil => cases h
  | cons p l ih =>
    obtain ⟨k, w⟩ := p
    rw [lastValue, Option.or_eq_some_iff] at h
    rcases h with h | ⟨-, h⟩
    · exact mem_cons_of_mem _ (ih h)
    split at h
    next hk =>
      cases h
      rw [hk]
      exact mem_cons_self
    next => cases h

/-- A key that is assigned one value only, however often, has that value. -/
theorem lastValue_eq_some (hmem : (a, v) ∈ l) (hall : ∀ w, (a, w) ∈ l → w = v) :
    lastValue l a = some v := by
  cases hval : lastValue l a with
  | none =>
    induction l with
    | nil => cases hmem
    | cons p l ih =>
      obtain ⟨k, w⟩ := p
      rw [lastValue, Option.or_eq_none_iff] at hval
      rcases mem_cons.mp hmem with heq | hmem
      · cases heq
        simp at hval
      · exact ih hmem (fun w hw => hall w (mem_cons_of_mem _ hw)) hval.1
  | some w => rw [hall w (mem_of_lastValue hval)]

/-- When no key is assigned twice, a key has the value that is assigned to it. -/
theorem lastValue_eq_some_iff (hl : (l.map Prod.fst).Nodup) {a : α} {v : β} :
    lastValue l a = some v ↔ (a, v) ∈ l := by
  refine ⟨mem_of_lastValue, fun h => ?_⟩
  induction l with
  | nil => cases h
  | cons p l ih =>
    obtain ⟨k, w⟩ := p
    rw [map_cons, nodup_cons] at hl
    rcases mem_cons.1 h with h | h
    · cases h
      rw [lastValue, lastValue_eq_none hl.1, if_pos rfl, Option.none_or]
    · rw [lastValue, ih hl.2 h, Option.some_or]

theorem lastValue_map {γ : Type*} (f : β → γ) (l : List (α × β)) (a : α) :
    lastValue (l.map fun p => (p.1, f p.2)) a = (lastValue l a).map f := by
  induction l with
  | nil => rfl
  | cons p l ih =>
    obtain ⟨k, v⟩ := p
    rw [map_cons, lastValue, ih, lastValue]
    cases lastValue l a <;> by_cases hk : k = a <;> simp [hk]

theorem lastValue_perm {l' : List (α × β)} (h : l.Perm l') (hl : (l.map Prod.fst).Nodup) (a : α) :
    lastValue l a = lastValue l' a := by
  have hl' : (l'.map Prod.fst).Nodup := (h.map Prod.fst).nodup_iff.1 hl
  refine Option.ext fun v => ?_
  rw [lastValue_eq_some_iff hl, lastValue_eq_some_iff hl', h.mem_iff]

end

theorem lastValue_pick {γ : Type*} (f : α → β → Option γ) (m : AList fun _ : α => β) (a : α) :
    lastValue (pick f m) a = (m.lookup a).bind (f a) := by
  refine Option.ext fun v => ?_
  rw [lastValue_eq_some_iff (nodup_pick f m), pick, mem_filterMap, Option.bind_eq_some_iff]
  constructor
  · rintro ⟨⟨k, b⟩, hmem, h⟩
    obtain ⟨w, hw, heq⟩ := Option.map_eq_some_iff.1 h
    cases heq
    exact ⟨b, AList.mem_lookup_iff.2 hmem, hw⟩
  · rintro ⟨b, hb, h⟩
    exact ⟨⟨a, b⟩, AList.mem_lookup_iff.1 hb, by rw [h, Option.map_some]⟩

end Assignments
