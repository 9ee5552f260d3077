import Xahau.Basics.Protocol

/-! # Escalated fees of the transaction queue (`TxQ.cpp`, `FeeUnits.h`)

Above the target the required fee level grows with the square of the number of transactions in the
open ledger. A series of transactions is charged for at once, by a closed form for the sum of the
squares; `escalatedSeriesFeeLevel_eq` compares it with the levels one after the other. -/

namespace Xahau.TxQ

open Finset

/-- `mulDivU` for fee levels; nothing where the division throws. -/
def mulDivU (value mul div : UInt64) : Option (Bool × UInt64) :=
  if value = div then some (true, mul)
  else if mul = div then some (true, value)
  else if div = 0 then none
  else
    let quotient := value.toNat * mul.toNat / div.toNat
    if quotient < 2 ^ 64 then some (true, .ofNat quotient) else some (false, .ofNat (2 ^ 64 - 1))

/-- `FeeMetrics::Snapshot`. -/
structure Snapshot where
  txnsExpected : UInt64
  escalationMultiplier : UInt64

/-- `TxQ::baseLevel`. -/
def baseLevel : UInt64 := 256

/-- `FeeMetrics::scaleFeeLevel`, in a ledger with `current` transactions. -/
def scaleFeeLevel (snapshot : Snapshot) (current : UInt64) : Option UInt64 :=
  let target := snapshot.txnsExpected
  if target < current then
    (mulDivU (current * current) snapshot.escalationMultiplier (target * target)).map Prod.snd
  else some baseLevel

/-- `detail::sumOfFirstSquares`. -/
def sumOfFirstSquares (x : UInt64) : Bool × UInt64 :=
  if 0x200000 ≤ x then (false, .ofNat (2 ^ 64 - 1)) else (true, x * (x + 1) * (2 * x + 1) / 6)

/-- `FeeMetrics::escalatedSeriesFeeLevel`, in a ledger with `txCount` transactions. -/
def escalatedSeriesFeeLevel (snapshot : Snapshot) (txCount extraCount seriesSize : UInt64) :
    Option (Bool × UInt64) :=
  let current := txCount + extraCount
  let last := current + seriesSize - 1
  let target := snapshot.txnsExpected
  let sumNlast := sumOfFirstSquares last
  let sumNcurrent := sumOfFirstSquares (current - 1)
  if sumNlast.1 = false then some sumNlast
  else
    mulDivU (sumNlast.2 - sumNcurrent.2) snapshot.escalationMultiplier (target * target)

/-- `MaybeTx`: a queued transaction. -/
structure MaybeTx (τ : Type) where
  seqProxy : Nat
  tx : τ
  feeLevel : UInt64
  retriesRemaining : Int
  lastResult : Option Ter

section

variable {σ τ : Type} (attempt : σ → τ → Ter × Bool × σ)

/-- The loop of `tryClearAccountQueueUpThruTx` over the queued transactions: the result that stops
it, the transactions as they are left, and the view. -/
def applyQueued : List (MaybeTx τ) → σ → Option Ter × List (MaybeTx τ) × σ
  | [], view => (none, [], view)
  | it :: rest, view =>
    let (result, applied, view) := attempt view it.tx
    let it := { it with retriesRemaining := it.retriesRemaining - 1, lastResult := some result }
    if result ≠ .tefNO_TICKET ∧ applied = false then (some result, it :: rest, view)
    else
      let (stopped, rest, view) := applyQueued rest view
      (stopped, it :: rest, view)

/-- `TxQ::tryClearAccountQueueUpThruTx` on the account's queue from `beginTxIter` on: the result,
the queue and the view. Nothing stands for `telINSUF_FEE_P` before anything was attempted, or for
a division that throws. -/
def tryClearAccountQueueUpThruTx (snapshot : Snapshot) (txCount txExtraCount : UInt64)
    (tx : τ) (tSeqProx : Nat) (feeLevelPaid : UInt64) (queue : List (MaybeTx τ)) (view : σ) :
    Option ((Ter × Bool) × List (MaybeTx τ) × σ) := do
  let batch := queue.takeWhile (·.seqProxy < tSeqProx)
  let rest := queue.dropWhile (·.seqProxy < tSeqProx)
  let required ←
    escalatedSeriesFeeLevel snapshot txCount txExtraCount (.ofNat batch.length + 1)
  guard (required.1 = true)
  let totalFeeLevelPaid := batch.foldl (fun total txn => total + txn.feeLevel) feeLevelPaid
  guard (required.2 ≤ totalFeeLevelPaid)
  match applyQueued attempt batch view with
  | (some result, batch, view) => some ((result, false), batch ++ rest, view)
  | (none, batch, view) =>
    let (result, applied, view) := attempt view tx
    let queue := if applied then rest.dropWhile (·.seqProxy = tSeqProx) else batch ++ rest
    some ((result, applied), queue, view)

end

/-! ## The closed form -/

theorem six_mul_sum_sq (n : ℕ) : 6 * ∑ i ∈ range (n + 1), i ^ 2 = n * (n + 1) * (2 * n + 1) := by
  induction n with
  | zero => simp
  | succ n ih =>
    rw [sum_range_succ, mul_add, ih]
    ring

theorem sumOfFirstSquares_eq {x : UInt64} (h : x.toNat < 2 ^ 21) :
    (sumOfFirstSquares x).1 = true ∧
      (sumOfFirstSquares x).2.toNat = ∑ i ∈ range (x.toNat + 1), i ^ 2 := by
  have hbound : x.toNat * (x.toNat + 1) * (2 * x.toNat + 1) < 2 ^ 64 := by
    calc x.toNat * (x.toNat + 1) * (2 * x.toNat + 1)
        ≤ (2 ^ 21 - 1) * 2 ^ 21 * (2 ^ 22 - 1) := by gcongr <;> omega
      _ < 2 ^ 64 := by norm_num
  have hprod : (x * (x + 1) * (2 * x + 1)).toNat = x.toNat * (x.toNat + 1) * (2 * x.toNat + 1) := by
    simp only [UInt64.toNat_mul, UInt64.toNat_add, UInt64.reduceToNat, Nat.mul_mod_mod,
      Nat.mod_mul_mod, Nat.mod_add_mod]
    exact Nat.mod_eq_of_lt hbound
  have hx : ¬ 0x200000 ≤ x := by simpa [UInt64.le_iff_toNat_le] using h
  rw [sumOfFirstSquares, if_neg hx]
  refine ⟨rfl, ?_⟩
  rw [UInt64.toNat_div, hprod, ← six_mul_sum_sq]
  exact Nat.mul_div_cancel_left _ (by norm_num)

theorem mulDivU_eq {value mul div : UInt64} (hdiv : div ≠ 0) :
    mulDivU value mul div =
      if value.toNat * mul.toNat / div.toNat < 2 ^ 64 then
        some (true, .ofNat (value.toNat * mul.toNat / div.toNat))
      else some (false, .ofNat (2 ^ 64 - 1)) := by
  have hpos : 0 < div.toNat := Nat.pos_of_ne_zero fun h => hdiv (UInt64.toNat.inj h)
  unfold mulDivU
  by_cases hval : value = div
  · rw [if_pos hval, hval, Nat.mul_div_cancel_left _ hpos, if_pos mul.toNat_lt, UInt64.ofNat_toNat]
  rw [if_neg hval]
  by_cases hmul : mul = div
  · rw [if_pos hmul, hmul, Nat.mul_div_cancel _ hpos, if_pos value.toNat_lt, UInt64.ofNat_toNat]
  · rw [if_neg hmul, if_neg hdiv]

/-! ## The series -/

variable {s : Snapshot} {a b k n v : UInt64}

theorem toNat_mul_self {t : UInt64} (h : t.toNat < 2 ^ 21) : (t * t).toNat = t.toNat ^ 2 := by
  have hsq : t.toNat * t.toNat ≤ 2 ^ 21 * 2 ^ 21 := by gcongr
  rw [UInt64.toNat_mul, Nat.mod_eq_of_lt (by omega), sq]

theorem mul_self_ne_zero {t : UInt64} (h : t.toNat < 2 ^ 21) (hpos : 0 < t.toNat) : t * t ≠ 0 := by
  intro h0
  have := toNat_mul_self h
  rw [h0] at this
  exact absurd this.symm (pow_pos hpos 2).ne'

/-- One transaction more needs at most its part of the series. -/
theorem scaleFeeLevel_le (ht : 0 < s.txnsExpected) (hn : s.txnsExpected < n)
    (hsma : n.toNat < 2 ^ 21) :
    ∃ level, scaleFeeLevel s n = some level ∧
      level.toNat ≤ s.escalationMultiplier.toNat * n.toNat ^ 2 / s.txnsExpected.toNat ^ 2 := by
  rw [UInt64.lt_iff_toNat_lt] at ht
  have htar : s.txnsExpected.toNat < 2 ^ 21 := (UInt64.lt_iff_toNat_lt.mp hn).trans hsma
  rw [scaleFeeLevel, if_pos hn, mulDivU_eq (mul_self_ne_zero htar ht), toNat_mul_self htar,
    toNat_mul_self hsma, mul_comm]
  split
  · next h => exact ⟨_, rfl, by rw [UInt64.toNat_ofNat', Nat.mod_eq_of_lt h]⟩
  · next h => exact ⟨_, rfl, (Nat.le_of_lt_succ (by simp)).trans (not_lt.mp h)⟩

/-- What `scaleFeeLevel` requires for `k` transactions one after the other, from `c` on. -/
def requiredLevels (snapshot : Snapshot) (c k : ℕ) : ℕ :=
  ∑ n ∈ range k, (scaleFeeLevel snapshot (.ofNat (c + n))).elim 0 UInt64.toNat

theorem toNat_foldl_le {τ : Type} (batch : List (MaybeTx τ)) (paid : UInt64) :
    (batch.foldl (fun total txn => total + txn.feeLevel) paid).toNat ≤
      paid.toNat + (batch.map fun txn => txn.feeLevel.toNat).sum := by
  induction batch generalizing paid with
  | nil => simp
  | cons txn batch ih =>
    have hadd : (paid + txn.feeLevel).toNat ≤ paid.toNat + txn.feeLevel.toNat := by
      rw [UInt64.toNat_add]
      exact Nat.mod_le ..
    have := ih (paid + txn.feeLevel)
    simp only [List.foldl_cons, List.map_cons, List.sum_cons]
    omega

section

variable (ht : 0 < s.txnsExpected) (hc : s.txnsExpected < a + b) (hk : 0 < k)
  (hfits : (a + b).toNat + k.toNat ≤ 2 ^ 64)
  (h : escalatedSeriesFeeLevel s a b k = some (true, v))

include ht hc hk hfits h

/-- **A series that is computed is exact**, unless the number of its last transaction wraps. -/
theorem escalatedSeriesFeeLevel_eq :
    (a + b).toNat + k.toNat ≤ 2 ^ 21 ∧
    v.toNat = s.escalationMultiplier.toNat *
      (∑ n ∈ range k.toNat, ((a + b).toNat + n) ^ 2) / s.txnsExpected.toNat ^ 2 := by
  unfold escalatedSeriesFeeLevel at h
  generalize a + b = c at *
  simp only [UInt64.lt_iff_toNat_lt, UInt64.reduceToNat] at ht hc hk
  have hlast : (c + k - 1).toNat = c.toNat + k.toNat - 1 := by
    rw [UInt64.toNat_sub, UInt64.toNat_add]
    simp only [UInt64.reduceToNat]
    omega
  have hprev : (c - 1).toNat = c.toNat - 1 := by
    rw [UInt64.toNat_sub]
    have := c.toNat_lt
    simp only [UInt64.reduceToNat]
    omega
  by_cases hsma : (c + k - 1).toNat < 2 ^ 21
  · have hsum : ∑ i ∈ range (c.toNat + k.toNat), i ^ 2 =
        ∑ i ∈ range c.toNat, i ^ 2 + ∑ n ∈ range k.toNat, (c.toNat + n) ^ 2 :=
      sum_range_add ..
    obtain ⟨hok, hSlast⟩ := sumOfFirstSquares_eq hsma
    obtain ⟨-, hSprev⟩ := sumOfFirstSquares_eq (x := c - 1) (by omega)
    rw [hlast, Nat.sub_add_cancel (by omega), hsum] at hSlast
    rw [hprev, Nat.sub_add_cancel (by omega)] at hSprev
    have hle : (sumOfFirstSquares (c - 1)).2 ≤ (sumOfFirstSquares (c + k - 1)).2 := by
      rw [UInt64.le_iff_toNat_le]
      omega
    have hdiff := UInt64.toNat_sub_of_le _ _ hle
    rw [hSlast, hSprev, Nat.add_sub_cancel_left] at hdiff
    have hsma : s.txnsExpected.toNat < 2 ^ 21 := by omega
    simp only [hok, Bool.true_eq_false, if_false, mulDivU_eq (mul_self_ne_zero hsma ht), hdiff,
      toNat_mul_self hsma] at h
    split at h
    · next hquo =>
      cases h
      refine ⟨by omega, ?_⟩
      rw [UInt64.toNat_ofNat', Nat.mod_eq_of_lt hquo, mul_comm]
    · cases h
  · have hlar : sumOfFirstSquares (c + k - 1) = (false, .ofNat (2 ^ 64 - 1)) :=
      if_pos (by simpa [UInt64.le_iff_toNat_le] using hsma)
    simp [hlar] at h

/-- **The required levels are within the series**, if it is computed. -/
theorem requiredLevels_le :
    (∀ n < k.toNat,
      scaleFeeLevel s (.ofNat ((a + b).toNat + n)) ≠ none) ∧
    requiredLevels s (a + b).toNat k.toNat ≤ v.toNat := by
  obtain ⟨hsma, hv⟩ := escalatedSeriesFeeLevel_eq ht hc hk hfits h
  generalize a + b = c at *
  have hlev : ∀ n < k.toNat, ∃ level, scaleFeeLevel s (.ofNat (c.toNat + n)) =
      some level ∧ level.toNat ≤ s.escalationMultiplier.toNat * (c.toNat + n) ^ 2 /
        s.txnsExpected.toNat ^ 2 := by
    intro n hn
    have hcn : (UInt64.ofNat (c.toNat + n)).toNat = c.toNat + n := by
      rw [UInt64.toNat_ofNat', Nat.mod_eq_of_lt (by omega)]
    have := scaleFeeLevel_le ht (n := .ofNat (c.toNat + n)) ?_ (by omega)
    · rwa [hcn] at this
    · rw [UInt64.lt_iff_toNat_lt] at hc ⊢
      omega
  refine ⟨fun n hn => ?_, ?_⟩
  · obtain ⟨level, hlev, -⟩ := hlev n hn
    exact hlev ▸ Option.some_ne_none level
  rw [hv, Nat.le_div_iff_mul_le (pow_pos (UInt64.lt_iff_toNat_lt.mp ht) 2), requiredLevels, sum_mul,
    mul_sum]
  refine sum_le_sum fun n hn => ?_
  obtain ⟨level, hlev, hle⟩ := hlev n (mem_range.mp hn)
  rw [hlev]
  exact (Nat.mul_le_mul_right _ hle).trans (Nat.div_mul_le_self ..)

end

/-- **A series is charged for exactly, and a batch is applied only if its exact fees cover what its
transactions need one by one.** The numbers of the transactions must not wrap. -/
theorem series_covers {σ τ : Type} (attempt : σ → τ → Ter × Bool × σ) (tx : τ) (tSeqProx : ℕ)
    (feeLevelPaid : UInt64) (queue : List (MaybeTx τ)) (view : σ) (snapshot : Snapshot)
    (txCount extraCount : UInt64) (ht : 0 < snapshot.txnsExpected)
    (hc : snapshot.txnsExpected < txCount + extraCount) :
    let c := (txCount + extraCount).toNat
    let batch := queue.takeWhile (·.seqProxy < tSeqProx)
    (∀ k v : UInt64, 0 < k → c + k.toNat ≤ 2 ^ 64 →
      escalatedSeriesFeeLevel snapshot txCount extraCount k = some (true, v) →
      v.toNat = snapshot.escalationMultiplier.toNat * (∑ n ∈ range k.toNat, (c + n) ^ 2) /
        snapshot.txnsExpected.toNat ^ 2 ∧
      (∀ n < k.toNat, scaleFeeLevel snapshot (.ofNat (c + n)) ≠ none) ∧
      requiredLevels snapshot c k.toNat ≤ v.toNat) ∧
    (c + batch.length < 2 ^ 64 →
      tryClearAccountQueueUpThruTx attempt snapshot txCount extraCount tx tSeqProx feeLevelPaid queue
        view ≠ none →
      requiredLevels snapshot c (batch.length + 1) ≤
        feeLevelPaid.toNat + (batch.map fun txn => txn.feeLevel.toNat).sum) := by
  intro c batch
  refine ⟨fun k v hk hfits h => ⟨(escalatedSeriesFeeLevel_eq ht hc hk hfits h).2,
    requiredLevels_le ht hc hk hfits h⟩, fun hfits h => ?_⟩
  have hc' := UInt64.lt_iff_toNat_lt.mp hc
  have hk : (UInt64.ofNat batch.length + 1).toNat = batch.length + 1 := by
    simp only [UInt64.toNat_add, UInt64.toNat_ofNat', UInt64.reduceToNat]
    omega
  obtain ⟨outcome, h⟩ := Option.ne_none_iff_exists'.mp h
  simp only [tryClearAccountQueueUpThruTx, Option.bind_eq_bind, Option.bind_eq_some_iff,
    Option.guard_eq_some'] at h
  obtain ⟨⟨_, v⟩, hseries, -, rfl, -, hpaid, -⟩ := h
  have hcovers := (requiredLevels_le ht hc (by rw [UInt64.lt_iff_toNat_lt, hk]; simp)
    (by rw [hk]; omega) hseries).2
  rw [hk] at hcovers
  exact hcovers.trans ((UInt64.le_iff_toNat_le.mp hpaid).trans (toNat_foldl_le batch feeLevelPaid))

/-- Two transactions of an account pay for themselves. -/
def sampleQueue : List (MaybeTx Unit) := [⟨7, (), 3000, 10, none⟩]

theorem sampleQueue_covered :
    requiredLevels ⟨2, 500⟩ 3 2 ≤ 2000 + (sampleQueue.map fun txn => txn.feeLevel.toNat).sum :=
  (series_covers (fun _ _ => (.tesSUCCESS, true, ())) () 8 2000 sampleQueue () ⟨2, 500⟩ 3 0
    (by decide) (by decide)).2 (by decide) (by decide)

theorem last_sq_le (c k : ℕ) : (c + k) ^ 2 ≤ ∑ n ∈ range (k + 1), (c + n) ^ 2 := by
  rw [sum_range_succ]
  exact Nat.le_add_left ..

/-- The number of the last transaction wraps: the series is reported far too small. -/
theorem long_series_wraps :
    ∃ v, escalatedSeriesFeeLevel ⟨1, 1⟩ 5 0 0xFFFFFFFFFFFFFFFD = some (true, v) ∧
      v.toNat < ∑ n ∈ range 0xFFFFFFFFFFFFFFFD, (5 + n) ^ 2 :=
  ⟨0xFFFFFFFFFFFFFFE3, by decide, lt_of_lt_of_le (by decide) (last_sq_le 5 0xFFFFFFFFFFFFFFFC)⟩

end Xahau.TxQ
