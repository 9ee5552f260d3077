import Xahau.Basics.BaseUInt

/-! # Skip lists (`Ledger::updateSkipList`, `hashOfSeq`)

A ledger keeps the hashes of its 256 predecessors, and for each group of 65536 sequence numbers
those of every 256th ledger. Both lists are runs of `recent` hashes, the newest last; they have
their closed form in every ledger of a chain, and `hashOfSeq` reads them from the end. -/

namespace Xahau.SkipList

open Function

/-- The fields of an `ltLEDGER_HASHES` entry. -/
structure LedgerHashes where
  hashes : List UInt256
  lastLedgerSequence : ℕ

/-- A ledger with its skip entries: under `keylet::skip()`, and under `keylet::skip(seq)` by
`seq >> 16`. -/
structure Ledger where
  seq : ℕ
  hash : UInt256
  parentHash : UInt256
  skip : Option LedgerHashes
  groups : ℕ → Option LedgerHashes

/-- The hashes of an entry, none if it is missing. -/
def hashesOf (sle : Option LedgerHashes) : List UInt256 := sle.elim [] LedgerHashes.hashes

/-- `Ledger::updateSkipList`. -/
def updateSkipList (ledger : Ledger) : Ledger :=
  if ledger.seq = 0 then ledger
  else
    let prevIndex := ledger.seq - 1
    let groups :=
      if prevIndex % 256 = 0 then
        update ledger.groups (prevIndex / 65536)
          (some ⟨hashesOf (ledger.groups (prevIndex / 65536)) ++ [ledger.parentHash], prevIndex⟩)
      else ledger.groups
    let hashes := hashesOf ledger.skip
    let hashes := if hashes.length = 256 then hashes.tail else hashes
    { ledger with groups, skip := some ⟨hashes ++ [ledger.parentHash], prevIndex⟩ }

/-- The conversion of an `std::uint32_t` to `int`. -/
def toInt32 (n : ℕ) : ℤ := if n < 2 ^ 31 then n else n - 2 ^ 32

/-- `hashOfSeq`. The difference to the ledger is an `int`, which is compared with the size of the
list as an `std::size_t`. -/
def hashOfSeq (ledger : Ledger) (seq : ℕ) : Option UInt256 :=
  if ledger.seq < seq then none
  else if seq = ledger.seq then some ledger.hash
  else if seq = ledger.seq - 1 then some ledger.parentHash
  else
    let diff := toInt32 (ledger.seq - seq)
    let vec := hashesOf ledger.skip
    if diff ≤ 256 ∧ ledger.skip.isSome ∧ diff % 2 ^ 64 ≤ vec.length then
      vec[vec.length - diff.toNat]?
    else if seq % 256 ≠ 0 then none
    else
      (ledger.groups (seq / 65536)).bind fun hashIndex =>
        let diff := (hashIndex.lastLedgerSequence + 2 ^ 32 - seq) % 2 ^ 32 / 256
        let vec := hashIndex.hashes
        if diff < vec.length then vec[vec.length - diff - 1]? else none

/-- A chain of ledgers with any hashes, from sequence 1 on: `chain hash parent n` has sequence
`n + 1`. A successor starts with the entries of its parent. -/
def chain (hash : ℕ → UInt256) (parent : UInt256) : ℕ → Ledger
  | 0 => ⟨1, hash 1, parent, none, fun _ => none⟩
  | n + 1 =>
    updateSkipList { chain hash parent n with
      seq := n + 2, hash := hash (n + 2), parentHash := hash (n + 1) }

/-! ## The closed form -/

/-- The `k` values of `f` up to `n`, the last one first. -/
def recent (f : ℕ → UInt256) (n k : ℕ) : List UInt256 := (List.range k).map fun d => f (n - d)

variable {f : ℕ → UInt256} {hash : ℕ → UInt256} {parent : UInt256} {n k : ℕ}

@[simp] theorem length_recent : (recent f n k).length = k := by simp [recent]

theorem recent_succ : recent f (n + 1) (k + 1) = f (n + 1) :: recent f n k := by
  simp [recent, List.range_succ_eq_map, comp_def]

theorem recent_dropLast : (recent f n (k + 1)).dropLast = recent f n k := by
  simp [recent, List.range_succ]

/-- Position `d` from the end of a list of recent values. -/
theorem get_recent {d : ℕ} (h : d < k) : (recent f n k).reverse[k - 1 - d]? = some (f (n - d)) := by
  have hlen : k - 1 - d < (recent f n k).length := by
    rw [length_recent]
    omega
  rw [List.getElem?_reverse hlen, length_recent, show k - 1 - (k - 1 - d) = d by omega]
  simp [recent, h]

/-- The list of the last ledgers, in the successor of ledger `n`. -/
def window (hash : ℕ → UInt256) (n : ℕ) : Option LedgerHashes :=
  if n = 0 then none else some ⟨(recent hash n (min n 256)).reverse, n⟩

/-- The list of a group, when the ledgers up to number `256 * m` were recorded. -/
def group (hash : ℕ → UInt256) (m g : ℕ) : Option LedgerHashes :=
  let first := max 1 (256 * g)
  let last := min (256 * g + 255) m
  if last < first then none
  else some ⟨(recent (fun j => hash (256 * j)) last (last + 1 - first)).reverse, 256 * last⟩

theorem window_succ (n : ℕ) :
    window hash (n + 1) = some ⟨(let hashes := hashesOf (window hash n)
      if hashes.length = 256 then hashes.tail else hashes) ++ [hash (n + 1)], n + 1⟩ := by
  by_cases h0 : n = 0
  · simp [h0, window, hashesOf, recent]
  simp only [window, h0, hashesOf, Option.elim, List.length_reverse, length_recent, List.tail_reverse,
    Nat.succ_ne_zero, if_false]
  by_cases hfull : n < 256
  · rw [Nat.min_eq_left hfull.le, Nat.min_eq_left hfull, recent_succ, if_neg hfull.ne]
    simp
  · rw [Nat.min_eq_right (by omega), Nat.min_eq_right (by omega), recent_succ, recent_dropLast]
    simp

theorem group_succ_of_ne {m g : ℕ} (h : g ≠ (m + 1) / 256) : group hash (m + 1) g = group hash m g := by
  unfold group
  by_cases hbef : m + 1 < 256 * g
  · rw [if_pos (by omega), if_pos (by omega)]
  · rw [Nat.min_eq_left (by omega), Nat.min_eq_left (by omega)]

theorem group_succ (m : ℕ) : group hash (m + 1) ((m + 1) / 256) =
    some ⟨hashesOf (group hash m ((m + 1) / 256)) ++ [hash (256 * (m + 1))], 256 * (m + 1)⟩ := by
  unfold group
  rw [Nat.min_eq_right (by omega), Nat.min_eq_right (by omega), if_neg (by omega)]
  generalize hfirst : max 1 (256 * ((m + 1) / 256)) = first
  by_cases hnew : m < first
  · rw [if_pos hnew, show m + 1 + 1 - first = 0 + 1 by omega, recent_succ]
    simp [recent, hashesOf]
  · rw [if_neg hnew, show m + 1 + 1 - first = (m + 1 - first) + 1 by omega, recent_succ]
    simp [hashesOf]

/-- **The skip entries of every ledger of a chain.** -/
theorem chain_eq (n : ℕ) : chain hash parent n =
    ⟨n + 1, hash (n + 1), if n = 0 then parent else hash n, window hash n, group hash (n / 256)⟩ := by
  induction n with
  | zero =>
    have hgrou : group hash 0 = fun _ => none := by
      funext g
      exact if_pos (by omega)
    simp [chain, window, hgrou]
  | succ n ih =>
    have hgro : group hash ((n + 1) / 256) =
        if (n + 1) % 256 = 0 then update (group hash (n / 256)) ((n + 1) / 65536)
          (some ⟨hashesOf (group hash (n / 256) ((n + 1) / 65536)) ++ [hash (n + 1)], n + 1⟩)
        else group hash (n / 256) := by
      split
      · next h =>
        have hm : (n + 1) / 256 = n / 256 + 1 := by omega
        rw [show (n + 1) / 65536 = (n / 256 + 1) / 256 by omega, hm]
        funext g
        by_cases hg : g = (n / 256 + 1) / 256
        · rw [hg, update_self, group_succ, show 256 * (n / 256 + 1) = n + 1 by omega]
        · rw [update_of_ne hg, group_succ_of_ne hg]
      · rw [show (n + 1) / 256 = n / 256 by omega]
    simp only [chain, ih, updateSkipList, window_succ, hgro]
    simp

theorem hashOfSeq_chain_eq {s : ℕ} (hn : n + 1 < 2 ^ 32) (hs : 1 ≤ s) (hle : s ≤ n + 1) :
    hashOfSeq (chain hash parent n) s =
      if n + 1 - s ≤ 256 ∨ s % 256 = 0 then some (hash s) else none := by
  rw [chain_eq]
  unfold hashOfSeq
  dsimp only
  rw [if_neg (by omega)]
  split
  next hself =>
    rw [if_pos (by omega), hself]
  by_cases hprev : s = n
  · rw [if_pos (by omega), if_neg (by omega), if_pos (by omega), hprev]
  have hwin : window hash n = some ⟨(recent hash n (min n 256)).reverse, n⟩ := if_neg (by omega)
  rw [if_neg (by omega), hwin]
  simp only [hashesOf, Option.elim, List.length_reverse, length_recent, Option.isSome_some, true_and]
  by_cases hnear : n + 1 - s ≤ 256
  · have hdiff : toInt32 (n + 1 - s) = (n + 1 - s : ℕ) := if_pos (by omega)
    rw [hdiff, if_pos (by omega), if_pos (.inl hnear), Int.toNat_natCast,
      show min n 256 - (n + 1 - s) = min n 256 - 1 - (n - s) by omega, get_recent (by omega),
      show n - (n - s) = s by omega]
  -- a difference of 2 ^ 31 or more is negative, and too large for the list
  have hfar : ¬ (toInt32 (n + 1 - s) ≤ 256 ∧ toInt32 (n + 1 - s) % 2 ^ 64 ≤ (min n 256 : ℕ)) := by
    unfold toInt32
    split <;> omega
  rw [if_neg hfar]
  by_cases hgro : s % 256 = 0
  · rw [if_neg (not_not.mpr hgro), if_pos (.inr hgro)]
    unfold group
    generalize hlast : min (256 * (s / 65536) + 255) (n / 256) = last
    generalize hfirst : max 1 (256 * (s / 65536)) = first
    have hdiff : (256 * last + 2 ^ 32 - s) % 2 ^ 32 / 256 = last - s / 256 := by omega
    rw [if_neg (by omega), Option.bind_some]
    simp only [hdiff, List.length_reverse, length_recent]
    rw [if_pos (by omega),
      show last + 1 - first - (last - s / 256) - 1 = last + 1 - first - 1 - (last - s / 256) by omega,
      get_recent (by omega), show 256 * (last - (last - s / 256)) = s by omega]
  · rw [if_pos hgro, if_neg (by omega)]

/-- **`hashOfSeq` in a chain** finds the last 256 ledgers and every 256th, and nothing wrong. -/
theorem hashOfSeq_chain (hash : ℕ → UInt256) (parent : UInt256) (n s : ℕ) (hn : n + 1 < 2 ^ 32)
    (hs : 1 ≤ s) (hle : s ≤ (chain hash parent n).seq) :
    ((chain hash parent n).seq - s ≤ 256 ∨ s % 256 = 0 →
      hashOfSeq (chain hash parent n) s = some (hash s)) ∧
    ∀ h, hashOfSeq (chain hash parent n) s = some h → h = hash s := by
  have hseq : (chain hash parent n).seq = n + 1 := by rw [chain_eq]
  rw [hseq] at hle ⊢
  rw [hashOfSeq_chain_eq hn hs hle]
  refine ⟨fun h => if_pos h, fun h hsome => ?_⟩
  split at hsome
  · exact (Option.some.inj hsome).symm
  · cases hsome

/-- Hashes that tell the first ledgers apart. -/
def sampleHash (n : ℕ) : UInt256 := .ofByte (.ofNat n)

theorem hashOfSeq_third :
    hashOfSeq (chain sampleHash (sampleHash 0) 2) 1 = some (sampleHash 1) :=
  (hashOfSeq_chain sampleHash (sampleHash 0) 2 1 (by decide) (by decide) (by decide)).1 (by decide)

end Xahau.SkipList
