import Xahau.Data.Run
import Xahau.Data.Total

/-! # Earmarks

A pool is held for several purposes at once, but only its sum is stored, with a counter of the
purposes. The counter never falls behind the purposes for which something is held, so the pool can
be dropped when the sum or the counter is zero. It is exact as long as no open purpose is raised, or
left with nothing. -/

namespace Earmarks

open Function (update update_of_ne update_self)

/-! ## Purposes that are opened and closed -/

/-- What is held for each open purpose, and the stored pool and counter. -/
structure Marks (ι M : Type*) where
  held : ι → Option M
  pool : M
  count : ℕ

/-- What happens to a purpose. -/
inductive Act (ι M : Type*) where
  /-- The purpose is opened with an amount. -/
  | create (i : ι) (x : M)
  /-- More is held for an open purpose. -/
  | raise (i : ι) (x : M)
  /-- Less is held for an open purpose; some is left. -/
  | lower (i : ι) (x rest : M)
  /-- The purpose is closed. -/
  | close (i : ι)

section Group

variable {ι M : Type*}

theorem setOf_update_some [DecidableEq ι] (held : ι → Option M) (i : ι) (x : M) :
    {j | update held i (some x) j ≠ none} = insert i {j | held j ≠ none} := by
  ext j
  by_cases hj : j = i <;> simp [hj]

theorem setOf_update_none [DecidableEq ι] (held : ι → Option M) (i : ι) :
    {j | update held i none j ≠ none} = {j | held j ≠ none} \ {i} := by
  ext j
  by_cases hj : j = i <;> simp [hj]

variable [AddCommGroup M]

/-- The acts after which the counter is still exact. -/
def Act.Regular : Act ι M → Prop
  | .raise _ _ => False
  | .lower _ _ rest => rest ≠ 0
  | _ => True

namespace Marks

/-- What is held for a purpose; nothing if it is not open. -/
def amount (s : Marks ι M) (i : ι) : M := (s.held i).getD 0

variable {s : Marks ι M} {i : ι}

theorem amount_of_open {a : M} (h : s.held i = some a) : s.amount i = a := by
  rw [amount, h]
  rfl

theorem amount_of_free (h : s.held i = none) : s.amount i = 0 := by
  rw [amount, h]
  rfl

theorem amount_update [DecidableEq ι] (s : Marks ι M) (i : ι) (o : Option M) :
    (fun j => (update s.held i o j).getD 0) = update s.amount i (o.getD 0) := by
  funext j
  by_cases hj : j = i
  · rw [hj, update_self, update_self]
  · rw [update_of_ne hj, update_of_ne hj]
    rfl

end Marks

end Group

variable {ι M : Type*} [AddCommGroup M] [LinearOrder M]

namespace Marks

/-- A pool and a counter are stored unless one of them is zero. -/
def store (held : ι → Option M) (pool : M) (count : ℕ) : Marks ι M :=
  if pool = 0 ∨ count = 0 then ⟨held, 0, 0⟩ else ⟨held, pool, count⟩

/-- **What each act does.** A purpose with nothing left is closed without telling the counter. -/
inductive Step [DecidableEq ι] (s : Marks ι M) : Act ι M → Marks ι M → Prop where
  | create (i : ι) (x : M) (hfree : s.held i = none) (hx : 0 < x) :
      Step s (.create i x)
        (store (update s.held i (some x)) (s.pool + x) (s.count + 1))
  | raise (i : ι) (a x : M) (hopen : s.held i = some a) (hx : 0 < x) :
      Step s (.raise i x)
        (store (update s.held i (some (a + x))) (s.pool + x) (s.count + 1))
  | lower (i : ι) (x rest : M) (hopen : s.held i = some (rest + x)) (hx : 0 < x)
      (hrest : 0 ≤ rest) :
      Step s (.lower i x rest) (store (update s.held i (some rest)) (s.pool - x) s.count)
  | close (i : ι) (a : M) (hopen : s.held i = some a) (ha : a ≠ 0) :
      Step s (.close i) (store (update s.held i none) (s.pool - a) (s.count - 1))
  | discard (i : ι) (hopen : s.held i = some 0) :
      Step s (.close i) ⟨update s.held i none, s.pool, s.count⟩

end Marks

/-! ## What covers the purposes -/

/-- How many purposes something is held for. -/
noncomputable def inUse (held : ι → M) : ℕ := {i | held i ≠ 0}.ncard

/-- A pool and a counter **cover** what is held for each purpose. -/
structure Covers [Finite ι] (held : ι → M) (pool : M) (count : ℕ) : Prop where
  nonneg : ∀ i, 0 ≤ held i
  sum : pool = Total.total held
  inUse_le : inUse held ≤ count

variable [Finite ι] {held : ι → M} {pool : M} {count : ℕ}

theorem covers_zero (h : ∀ i, held i = 0) : Covers held 0 0 where
  nonneg i := (h i).ge
  sum := by
    rw [show held = fun _ => 0 from funext h]
    exact finsum_zero.symm
  inUse_le := by
    have hemp : {i | held i ≠ 0} = ∅ := Set.eq_empty_of_forall_notMem fun i hi => hi (h i)
    unfold inUse
    rw [hemp, Set.ncard_empty]

namespace Covers

section Order

variable [IsOrderedAddMonoid M]

section

variable (h : Covers held pool count)

include h

theorem le_pool (i : ι) : held i ≤ pool := by
  have := Fintype.ofFinite ι
  rw [h.sum, Total.total, finsum_eq_sum_of_fintype]
  exact Finset.single_le_sum (fun j _ => h.nonneg j) (Finset.mem_univ i)

theorem pool_nonneg : 0 ≤ pool := by
  have := Fintype.ofFinite ι
  rw [h.sum, Total.total, finsum_eq_sum_of_fintype]
  exact Finset.sum_nonneg fun j _ => h.nonneg j

theorem held_eq_zero (hzero : pool = 0 ∨ count = 0) (i : ι) : held i = 0 := by
  rcases hzero with rfl | rfl
  · exact le_antisymm (h.le_pool i) (h.nonneg i)
  by_contra hi
  have hpos : 0 < inUse held := (Set.ncard_pos (Set.toFinite _)).mpr ⟨i, hi⟩
  exact hpos.not_ge h.inUse_le

theorem count_pos {i : ι} (hi : held i ≠ 0) : 0 < count :=
  Nat.pos_of_ne_zero fun hzero => hi (h.held_eq_zero (.inr hzero) i)

/-- **The pool can be dropped** if it is empty or nothing is counted. -/
theorem drop (hzero : pool = 0 ∨ count = 0) : Covers held 0 0 := covers_zero (h.held_eq_zero hzero)

end

end Order

variable [DecidableEq ι]

section

variable (h : Covers held pool count) (i : ι)

include h

private theorem sum_update (x : M) : pool + (x - held i) = Total.total (update held i x) := by
  rw [h.sum]
  exact (Total.total_update held id i x).symm

private theorem nonneg_update {x : M} (hx : 0 ≤ x) (j : ι) : 0 ≤ update held i x j := by
  by_cases hj : j = i
  · rw [hj, update_self]
    exact hx
  · rw [update_of_ne hj]
    exact h.nonneg j

/-- A purpose for which something is held ends, and one less is counted. -/
theorem release (hi : held i ≠ 0) :
    Covers (update held i 0) (pool - held i) (count - 1) where
  nonneg := h.nonneg_update i le_rfl
  sum := by rw [← h.sum_update, zero_sub, sub_eq_add_neg]
  inUse_le := by
    have hset : {j | update held i 0 j ≠ 0} = {j | held j ≠ 0} \ {i} := by
      ext j
      by_cases heq : j = i <;> simp [heq]
    unfold inUse
    rw [hset, Set.ncard_sdiff_singleton_of_mem hi]
    exact Nat.sub_le_sub_right h.inUse_le 1

/-- The end of a purpose for which nothing is held changes nothing. -/
theorem release_of_zero (hi : held i = 0) : Covers (update held i 0) pool count := by
  rw [← hi, Function.update_eq_self]
  exact h

end

variable [IsOrderedAddMonoid M]

theorem raise (h : Covers held pool count) (i : ι) {x : M} (hx : 0 ≤ x) :
    Covers (update held i (held i + x)) (pool + x) (count + 1) where
  nonneg := h.nonneg_update i (add_nonneg (h.nonneg i) hx)
  sum := by rw [← h.sum_update, add_sub_cancel_left]
  inUse_le := by
    have hsub : {j | update held i (held i + x) j ≠ 0} ⊆ insert i {j | held j ≠ 0} := by
      intro j hj
      by_cases heq : j = i
      · exact .inl heq
      refine .inr ?_
      show held j ≠ 0
      rw [← update_of_ne heq (held i + x) held]
      exact hj
    calc inUse (update held i (held i + x))
        ≤ (insert i {j | held j ≠ 0}).ncard := Set.ncard_le_ncard hsub (Set.toFinite _)
      _ ≤ inUse held + 1 := Set.ncard_insert_le _ _
      _ ≤ count + 1 := Nat.add_le_add_right h.inUse_le 1

theorem lower (h : Covers held pool count) (i : ι) {x : M} (hx : 0 ≤ x) (hle : x ≤ held i) :
    Covers (update held i (held i - x)) (pool - x) count where
  nonneg := h.nonneg_update i (sub_nonneg.mpr hle)
  sum := by rw [← h.sum_update, sub_sub_cancel_left, sub_eq_add_neg]
  inUse_le := by
    refine le_trans (Set.ncard_le_ncard ?_ (Set.toFinite _)) h.inUse_le
    intro j hj hzero
    by_cases heq : j = i
    · subst heq
      refine hj ?_
      rw [update_self, hzero, le_antisymm (hzero ▸ hle) hx, sub_zero]
    · refine hj ?_
      rw [update_of_ne heq, hzero]

end Covers

/-! ## Histories -/

namespace Marks

/-- The pool and the counter cover what is held. -/
def Covered (s : Marks ι M) : Prop := Covers s.amount s.pool s.count

/-- **The counter is exact**: it counts the open purposes, all with something held. -/
structure Exact (s : Marks ι M) : Prop where
  covered : s.Covered
  ne_zero : ∀ i a, s.held i = some a → a ≠ 0
  count_eq : s.count = {i | s.held i ≠ none}.ncard

section Store

variable [IsOrderedAddMonoid M] {held : ι → Option M} {pool : M} {count : ℕ}

theorem Covered.store (h : Covered ⟨held, pool, count⟩) : (store held pool count).Covered := by
  unfold Marks.store
  split
  next hzero => exact h.drop hzero
  next => exact h

theorem Exact.store (h : Exact ⟨held, pool, count⟩) : (store held pool count).Exact := by
  unfold Marks.store
  split
  next hzero =>
    -- nothing is held, so no purpose is open
    have hn : {i | held i ≠ none} = ∅ := by
      refine Set.eq_empty_of_forall_notMem fun i hi => ?_
      obtain ⟨a, ha⟩ := Option.ne_none_iff_exists'.mp hi
      exact h.ne_zero i a ha ((amount_of_open ha).symm.trans (h.covered.held_eq_zero hzero i))
    refine ⟨h.covered.drop hzero, h.ne_zero, ?_⟩
    rw [show {i | (Marks.mk held 0 0).held i ≠ none} = ∅ from hn, Set.ncard_empty]
  next => exact h

end Store

variable [DecidableEq ι] {s s' : Marks ι M} {act : Act ι M} {acts : List (Act ι M)} {i : ι}
  {o : Option M}

theorem Covered.update (h : Covers (update s.amount i (o.getD 0)) pool count) :
    Covered ⟨Function.update s.held i o, pool, count⟩ := by
  rw [← amount_update] at h
  exact h

/-- Something is held for each purpose after something was written. -/
theorem Exact.ne_zero_update (h : s.Exact) (ho : ∀ x, o = some x → x ≠ 0) (j : ι) (a : M)
    (ha : update s.held i o j = some a) : a ≠ 0 := by
  by_cases hj : j = i
  · rw [hj, update_self] at ha
    exact ho a ha
  · rw [update_of_ne hj] at ha
    exact h.ne_zero j a ha

theorem Covered.close (h : s.Covered) {a : M} (hopen : s.held i = some a) (ha : a ≠ 0) :
    Covered ⟨Function.update s.held i none, s.pool - a, s.count - 1⟩ := by
  have hheld := amount_of_open hopen
  have hrel := Covers.release h i (hheld.trans_ne ha)
  rw [hheld] at hrel
  exact .update hrel

variable [IsOrderedAddMonoid M]

theorem Covered.create (h : s.Covered) {x : M} (hfree : s.held i = none) (hx : 0 < x) :
    Covered ⟨Function.update s.held i (some x), s.pool + x, s.count + 1⟩ := by
  have hrai := Covers.raise h i hx.le
  rw [amount_of_free hfree, zero_add] at hrai
  exact .update hrai

theorem Covered.lower (h : s.Covered) {x rest : M} (hopen : s.held i = some (rest + x)) (hx : 0 < x)
    (hrest : 0 ≤ rest) : Covered ⟨Function.update s.held i (some rest), s.pool - x, s.count⟩ := by
  have hheld := amount_of_open hopen
  have hlow := Covers.lower h i hx.le (hheld.ge.trans' (le_add_of_nonneg_left hrest))
  rw [hheld, add_sub_cancel_right] at hlow
  exact .update hlow

/-- **Every act keeps what is held covered.** -/
theorem Covered.step (h : s.Covered) (hstep : Step s act s') : s'.Covered := by
  cases hstep with
  | create i x hfree hx => exact (h.create hfree hx).store
  | raise i a x hopen hx =>
    have hrai := Covers.raise h i hx.le
    rw [amount_of_open hopen] at hrai
    exact Covered.store (.update hrai)
  | lower i x rest hopen hx hrest => exact (h.lower hopen hx hrest).store
  | close i a hopen ha => exact (h.close hopen ha).store
  | discard i hopen => exact .update (Covers.release_of_zero h i (amount_of_open hopen))

theorem Covered.run (h : s.Covered) (hrun : Run Step s acts s') : s'.Covered :=
  hrun.invariant (fun _ t => t.Covered) h fun _ _ _ _ ht hstep => ht.step hstep

/-- **Every regular act keeps the counter exact.** -/
theorem Exact.step (h : s.Exact) (hstep : Step s act s') (hreg : act.Regular) : s'.Exact := by
  cases hstep with
  | create i x hfree hx =>
    refine Exact.store ⟨h.covered.create hfree hx, h.ne_zero_update ?_, ?_⟩
    · rintro _ ⟨⟩
      exact hx.ne'
    have hnot : i ∉ {j | s.held j ≠ none} := fun hi => hi hfree
    rw [setOf_update_some, Set.ncard_insert_of_notMem hnot (Set.toFinite _), h.count_eq]
  | raise i a x hopen hx => exact absurd hreg id
  | lower i x rest hopen hx hrest =>
    refine Exact.store ⟨h.covered.lower hopen hx hrest, h.ne_zero_update ?_, ?_⟩
    · rintro _ ⟨⟩
      exact hreg
    have hmem : i ∈ {j | s.held j ≠ none} := Option.ne_none_iff_exists'.mpr ⟨_, hopen⟩
    rw [setOf_update_some, Set.insert_eq_of_mem hmem, h.count_eq]
  | close i a hopen ha =>
    refine Exact.store ⟨h.covered.close hopen ha, h.ne_zero_update ?_, ?_⟩
    · rintro _ ⟨⟩
    have hmem : i ∈ {j | s.held j ≠ none} := Option.ne_none_iff_exists'.mpr ⟨_, hopen⟩
    rw [setOf_update_none, Set.ncard_sdiff_singleton_of_mem hmem, h.count_eq]
  | discard i hopen => exact absurd rfl (h.ne_zero i 0 hopen)

theorem Exact.run (h : s.Exact) (hrun : Run Step s acts s') (hreg : ∀ act ∈ acts, act.Regular) :
    s'.Exact := by
  induction hrun with
  | nil => exact h
  | snoc _ hlast ih =>
    have hinit := ih fun act hact => hreg act (List.mem_append_left _ hact)
    exact hinit.step hlast (hreg _ (List.mem_append_right _ (List.mem_singleton_self _)))

end Marks

end Earmarks
