import Xahau.Basics.BaseUInt

/-! # Account history in memory (`RWDBDatabase::accountTxPage`)

The transactions of an account are found through an index by ledger and transaction sequence. A
page ends with a marker, the key of the next transaction. What remains to be returned is always a
rest of the walk without marker, and a page takes its first part. -/

namespace Xahau.Rdb

open List

/-- A transaction and its metadata, with `TxMeta::getLgrSeq` and `TxMeta::getIndex`. -/
structure AccountTx where
  id : UInt256
  lgrSeq : ℕ
  index : ℕ
  deriving DecidableEq

/-- A ledger sequence and a transaction sequence. -/
abbrev TxKey : Type := ℕ × ℕ

/-- The order of the nested maps. -/
def TxKey.Before (a b : TxKey) : Prop := a.1 < b.1 ∨ a.1 = b.1 ∧ a.2 < b.2

def AccountTx.key (tx : AccountTx) : TxKey := (tx.lgrSeq, tx.index)

/-- `AccountTxData`: the entries of the nested maps, with indexes in `transactions`. -/
structure AccountTxData where
  transactions : List AccountTx
  ledgerTxMap : List (TxKey × ℕ)
  sorted : ledgerTxMap.Pairwise fun a b => a.1.Before b.1

/-- The entries from `lower_bound(lo)` to `upper_bound(hi)`, in the order of the loops. -/
def AccountTxData.between (data : AccountTxData) (forward : Bool) (lo hi : ℕ) : List (TxKey × ℕ) :=
  let found := data.ledgerTxMap.filter fun e => lo ≤ e.1.1 ∧ e.1.1 ≤ hi
  if forward then found else found.reverse

/-- `AccountTxPageOptions`. -/
structure AccountTxPageOptions where
  account : AccountID
  minLedger : ℕ
  maxLedger : ℕ
  range : minLedger ≤ maxLedger
  marker : Option TxKey
  limit : UInt32
  bAdmin : Bool

def AccountTxPageOptions.numberOfResults (options : AccountTxPageOptions) (pageLength : UInt32) :
    UInt32 :=
  if options.limit = 0 ∨ options.limit = 0xFFFFFFFF ∨
      (pageLength < options.limit ∧ options.bAdmin = false) then pageLength
  else options.limit

/-- The entries that a page walks through. -/
def AccountTxData.walk (data : AccountTxData) (options : AccountTxPageOptions) (forward : Bool)
    (findLedger : ℕ) : List (TxKey × ℕ) :=
  data.between forward
    (if forward = false ∨ findLedger = 0 then options.minLedger else findLedger)
    (if forward = true ∨ findLedger = 0 then options.maxLedger else findLedger)

/-- The loops of `accountTxPage`. There is no result past the end of the vector. -/
def pageLoop (transactions : List AccountTx) (find : TxKey) :
    Bool → UInt32 → List (TxKey × ℕ) → Option (Option TxKey × List AccountTx)
  | _, _, [] => some (none, [])
  | lookingForMarker, numberOfResults, (key, index) :: rest =>
    if lookingForMarker ∧ find ≠ key then pageLoop transactions find true numberOfResults rest
    else if lookingForMarker = false ∧ numberOfResults = 0 then some (some key, [])
    else do
      let tx ← transactions[index]?
      let (newmarker, txs) ← pageLoop transactions find false (numberOfResults - 1) rest
      some (newmarker, tx :: txs)

section

variable (accountTxMap : AccountID → Option AccountTxData)

/-- `RWDBDatabase::accountTxPage`, with the transactions that are handed over. -/
def accountTxPage (options : AccountTxPageOptions) (limitUsed pageLength : UInt32)
    (forward : Bool) : Option (Option TxKey × ℤ × List AccountTx) :=
  match accountTxMap options.account with
  | none => some (none, 0, [])
  | some data =>
    let numberOfResults := options.numberOfResults pageLength
    if numberOfResults < limitUsed then some (options.marker, -1, [])
    else do
      let find := options.marker.getD (0, 0)
      let (newmarker, txs) ← pageLoop data.transactions find options.marker.isSome
        (numberOfResults - limitUsed) (data.walk options forward find.1)
      some (newmarker.or (if 0 < limitUsed then options.marker else none), txs.length, txs)

/-- The pages that are returned until there is no marker. -/
def follow (options : AccountTxPageOptions) (pageLength : UInt32) (forward : Bool) :
    ℕ → Option TxKey → Option (List (List AccountTx))
  | 0, _ => none
  | fuel + 1, marker => do
    let (newmarker, _, txs) ←
      accountTxPage accountTxMap { options with marker } 0 pageLength forward
    match newmarker with
    | none => some [txs]
    | some key => (follow options pageLength forward fuel (some key)).map (txs :: ·)

end

/-! ## The index -/

/-- The index designates every transaction, under its key. -/
structure AccountTxData.Consistent (data : AccountTxData) : Prop where
  designates : ∀ e ∈ data.ledgerTxMap, (data.transactions[e.2]?).map AccountTx.key = some e.1
  covers : (data.ledgerTxMap.map Prod.snd).Perm (List.range data.transactions.length)

/-- The transaction that an entry designates. -/
def AccountTxData.designated (data : AccountTxData) (e : TxKey × ℕ) : AccountTx :=
  (data.transactions[e.2]?).getD ⟨.zero, e.1.1, e.1.2⟩

/-- The order in which transactions are listed. -/
def Listed (forward : Bool) (a b : TxKey) : Prop := if forward then a.Before b else b.Before a

section

variable {transactions : List AccountTx} {find : TxKey} {n pageLength : UInt32} {lo hi : ℕ}
  {l P S : List (TxKey × ℕ)} {e : TxKey × ℕ} {data : AccountTxData} {forward : Bool}
  {options : AccountTxPageOptions} {marker : Option TxKey}
  {accountTxMap : AccountID → Option AccountTxData}

theorem Listed.ne {a b : TxKey} (h : Listed forward a b) : a ≠ b := by
  rintro rfl
  simp [Listed, TxKey.Before] at h

theorem mem_between : e ∈ data.between forward lo hi ↔
    e ∈ data.ledgerTxMap ∧ lo ≤ e.1.1 ∧ e.1.1 ≤ hi := by
  cases forward <;> simp [AccountTxData.between]

theorem listed_between (data : AccountTxData) (forward : Bool) (lo hi : ℕ) :
    (data.between forward lo hi).Pairwise fun a b => Listed forward a.1 b.1 := by
  cases forward
  · simpa [AccountTxData.between, pairwise_reverse, Listed] using data.sorted.filter _
  · simpa [AccountTxData.between, Listed] using data.sorted.filter _

theorem AccountTxData.Consistent.get (h : data.Consistent) (he : e ∈ data.ledgerTxMap) :
    data.transactions[e.2]? = some (data.designated e) ∧ (data.designated e).key = e.1 := by
  obtain ⟨tx, htx, hkey⟩ := Option.map_eq_some_iff.mp (h.designates e he)
  simp [designated, htx, hkey]

theorem AccountTxData.Consistent.perm (h : data.Consistent) :
    (data.ledgerTxMap.map data.designated).Perm data.transactions := by
  have hcov := h.covers.map (data.transactions[·]?)
  have hrange : (List.range data.transactions.length).map (data.transactions[·]?) =
      data.transactions.map some := ext_getElem (by simp) (by simp)
  have hget : ∀ e ∈ data.ledgerTxMap, ((data.transactions[·]?) ∘ Prod.snd) e =
      (some ∘ data.designated) e := fun e he => (h.get he).1
  rw [hrange, map_map, map_congr_left hget, ← map_map] at hcov
  simpa using hcov.filterMap id

/-- **The index lists the transactions** of a range of ledgers, in order. -/
theorem AccountTxData.Consistent.between_spec (h : data.Consistent) (forward : Bool) (lo hi : ℕ) :
    ((data.between forward lo hi).map data.designated).Pairwise
        (fun a b => Listed forward a.key b.key) ∧
      ((data.between forward lo hi).map data.designated).Perm
        (data.transactions.filter fun tx => lo ≤ tx.lgrSeq ∧ tx.lgrSeq ≤ hi) := by
  have hkey : ∀ e ∈ data.between forward lo hi, (data.designated e).key = e.1 :=
    fun e he => (h.get (mem_between.mp he).1).2
  constructor
  · rw [pairwise_map]
    refine (listed_between data forward lo hi).imp_of_mem fun ha hb hab => ?_
    rwa [hkey _ ha, hkey _ hb]
  have hfound : (data.between forward lo hi).Perm
      (data.ledgerTxMap.filter fun e => lo ≤ e.1.1 ∧ e.1.1 ≤ hi) := by
    cases forward
    · exact reverse_perm _
    · exact .refl _
  refine ((hfound.map _).trans ?_).trans (h.perm.filter _)
  rw [filter_map]
  refine .of_eq (congrArg _ (filter_congr fun e he => ?_))
  rw [← (h.get he).2]
  rfl

/-! ## Pages -/

theorem pageLoop_false (hl : ∀ e ∈ l, data.transactions[e.2]? = some (data.designated e)) :
    pageLoop data.transactions find false n l =
      some ((l.drop n.toNat).head?.map Prod.fst, (l.take n.toNat).map data.designated) := by
  induction l generalizing n with
  | nil => simp [pageLoop]
  | cons e l ih =>
    obtain ⟨he, hl⟩ := forall_mem_cons.mp hl
    by_cases hn : n = 0
    · simp [pageLoop, hn]
    have hsucc : n.toNat = (n - 1).toNat + 1 := by
      have hne : n.toNat ≠ 0 := fun h => hn (UInt32.toNat_inj.mp h)
      rw [UInt32.toNat_sub_of_le _ _ (UInt32.le_iff_toNat_le.mpr (by simp; omega))]
      simp
      omega
    simp [pageLoop, hn, he, ih hl, hsucc]

/-- The loops pass over what is before the marker. -/
theorem pageLoop_true (hP : ∀ e' ∈ P, e'.1 ≠ e.1) (hn : n ≠ 0) :
    pageLoop transactions e.1 true n (P ++ e :: S) =
      pageLoop transactions e.1 false n (e :: S) := by
  induction P with
  | nil => simp [pageLoop, hn]
  | cons e' P ih =>
    obtain ⟨he', hP⟩ := forall_mem_cons.mp hP
    simp [pageLoop, he'.symm, ih hP]

/-- **The walk from a marker** ends as the walk without one. -/
theorem exists_walk (h : data.walk options forward 0 = P ++ e :: S) :
    ∃ P', data.walk options forward e.1.1 = P' ++ e :: S ∧ ∀ e' ∈ P', e'.1 ≠ e.1 := by
  have hord : (data.walk options forward 0).Pairwise _ := listed_between ..
  have hmem : e ∈ data.walk options forward 0 := by simp [h]
  have heq : data.walk options forward e.1.1 = (data.walk options forward 0).filter
      fun e' => e.1.1 = 0 ∨ if forward then e.1.1 ≤ e'.1.1 else e'.1.1 ≤ e.1.1 := by
    rw [AccountTxData.walk, mem_between] at hmem
    cases forward <;> simp only [AccountTxData.walk, AccountTxData.between, Bool.false_eq_true,
      if_false, if_true, filter_reverse, filter_filter, reverse_inj] at hmem ⊢
    all_goals
      refine filter_congr fun e' _ => ?_
      rw [Bool.eq_iff_iff]
      by_cases hz : e.1.1 = 0
      · simp [hz]
      · simp [hz] at hmem ⊢
        omega
  rw [h, pairwise_append, pairwise_cons] at hord
  have hkeep : ∀ e' ∈ e :: S, decide
      (e.1.1 = 0 ∨ if forward then e.1.1 ≤ e'.1.1 else e'.1.1 ≤ e.1.1) = true := by
    intro e' he'
    rcases mem_cons.mp he' with rfl | he'
    · simp
    have hlist := hord.2.1.1 e' he'
    cases forward <;> simp [Listed, TxKey.Before] at hlist ⊢ <;> omega
  rw [h, filter_append, filter_eq_self.mpr hkeep] at heq
  refine ⟨_, heq, fun e' he' => (hord.2.2 e' (mem_of_mem_filter he') e ?_).ne⟩
  exact mem_cons_self

theorem numberOfResults_spec (hlimit : 0 < options.limit) (hlen : 0 < pageLength) :
    options.numberOfResults pageLength ≤ options.limit ∧
      options.numberOfResults pageLength ≠ 0 := by
  have hmax := pageLength.toNat_lt
  rw [AccountTxPageOptions.numberOfResults]
  split
  all_goals
    simp only [← UInt32.toNat_inj, UInt32.lt_iff_toNat_lt, UInt32.le_iff_toNat_le, ne_eq] at *
    simp at *
    omega

section

variable (hdata : accountTxMap options.account = some data) (hcon : data.Consistent)
  (hn : options.numberOfResults pageLength = n) (hpos : n ≠ 0)
  (h : data.walk options forward 0 = P ++ S)
  (hmarker : marker = none ∧ P = [] ∨ S ≠ [] ∧ marker = S.head?.map Prod.fst)

include hdata hcon hn hpos h hmarker

/-- **A page** takes the first part of what remains. -/
theorem accountTxPage_eq :
    ∃ total, accountTxPage accountTxMap { options with marker } 0 pageLength forward =
      some ((S.drop n.toNat).head?.map Prod.fst, total, (S.take n.toNat).map data.designated) := by
  have hS : ∀ e ∈ S, data.transactions[e.2]? = some (data.designated e) := by
    intro e he
    have hmem : e ∈ data.walk options forward 0 := by simp [h, he]
    exact (hcon.get (mem_between.mp hmem).1).1
  have hloop : pageLoop data.transactions (marker.getD (0, 0)) marker.isSome n
      (data.walk options forward (marker.getD (0, 0)).1) =
        some ((S.drop n.toNat).head?.map Prod.fst, (S.take n.toNat).map data.designated) := by
    rcases hmarker with ⟨rfl, rfl⟩ | ⟨hne, rfl⟩
    · rw [Option.getD_none, h]
      exact pageLoop_false hS
    · obtain ⟨e, S, rfl⟩ := exists_cons_of_ne_nil hne
      obtain ⟨P', hwalk, hP'⟩ := exists_walk h
      simp only [head?_cons, Option.map_some, Option.getD_some, Option.isSome_some]
      rw [hwalk, pageLoop_true hP' hpos, pageLoop_false hS]
  refine ⟨((S.take n.toNat).map data.designated).length, ?_⟩
  simp only [accountTxPage, hdata, UInt32.not_lt_zero, if_false, UInt32.sub_zero]
  change (pageLoop _ _ _ (options.numberOfResults pageLength)
    (data.walk options forward _) >>= _) = _
  rw [hn, hloop]
  simp

/-- **The pages together** are what remains: by induction on the pages. -/
theorem exists_follow {fuel : ℕ} (hfuel : S.length < fuel) :
    ∃ pages, follow accountTxMap options pageLength forward fuel marker = some pages ∧
      pages.flatten = S.map data.designated ∧ ∀ page ∈ pages, page.length ≤ n.toNat := by
  induction fuel generalizing P S marker with
  | zero => omega
  | succ fuel ih =>
    obtain ⟨total, hpage⟩ := accountTxPage_eq hdata hcon hn hpos h hmarker
    have hcount : n.toNat ≠ 0 := fun hz => hpos (UInt32.toNat_inj.mp hz)
    cases hrest : S.drop n.toNat with
    | nil =>
      have hlen := drop_eq_nil_iff.mp hrest
      refine ⟨[S.map data.designated], ?_, by simp, by simpa using hlen⟩
      simp [follow, hpage, hrest, take_of_length_le hlen]
    | cons e rest =>
      have hlen := congrArg length hrest
      rw [length_drop, length_cons] at hlen
      obtain ⟨pages, hpages, hflat, hle⟩ := ih (P := P ++ S.take n.toNat) (S := e :: rest)
        (by rw [h, ← hrest, append_assoc, take_append_drop]) (.inr ⟨cons_ne_nil _ _, rfl⟩)
        (by simp; omega)
      refine ⟨(S.take n.toNat).map data.designated :: pages, ?_, ?_, by simpa using hle⟩
      · simpa [follow, hpage, hrest] using hpages
      · rw [flatten_cons, hflat, ← map_append, ← hrest, take_append_drop]

end

end

/-- **Following the markers** gives every transaction of the account in the range once, in order. -/
theorem follow_complete (accountTxMap : AccountID → Option AccountTxData)
    (options : AccountTxPageOptions) (pageLength : UInt32) (forward : Bool)
    (hcon : ∀ data ∈ accountTxMap options.account, data.Consistent) (hlimit : 0 < options.limit)
    (hlen : 0 < pageLength) :
    ∃ fuel pages, follow accountTxMap options pageLength forward fuel none = some pages ∧
      (∀ page ∈ pages, page.length ≤ options.limit.toNat) ∧
      pages.flatten.Pairwise (fun a b => Listed forward a.key b.key) ∧
      pages.flatten.Perm (((accountTxMap options.account).elim [] AccountTxData.transactions).filter
        fun tx => options.minLedger ≤ tx.lgrSeq ∧ tx.lgrSeq ≤ options.maxLedger) := by
  cases hdata : accountTxMap options.account with
  | none => exact ⟨1, [[]], by simp [follow, accountTxPage, hdata], by simp, by simp, by simp⟩
  | some data =>
    have hdat := hcon data hdata
    obtain ⟨hle, hpos⟩ := numberOfResults_spec hlimit hlen
    obtain ⟨pages, hpages, hflat, hpage⟩ := exists_follow (P := [])
      (S := data.walk options forward 0) hdata hdat rfl hpos rfl (.inl ⟨rfl, rfl⟩)
      (Nat.lt_succ_self _)
    refine ⟨_, pages, hpages, fun page hp => (hpage page hp).trans ?_, ?_⟩
    · exact UInt32.le_iff_toNat_le.mp hle
    rw [hflat]
    simpa [AccountTxData.walk] using
      hdat.between_spec forward options.minLedger options.maxLedger

/-- Three transactions in two ledgers, which were not saved in order. -/
def sampleHistory : AccountTxData where
  transactions := [⟨.zero, 8, 1⟩, ⟨.zero, 7, 0⟩, ⟨.zero, 8, 0⟩]
  ledgerTxMap := [((7, 0), 1), ((8, 0), 2), ((8, 1), 0)]
  sorted := by simp [TxKey.Before]

theorem follow_sampleHistory :
    ∃ fuel pages, follow (fun _ => some sampleHistory) ⟨.zero, 7, 8, by decide, none, 2, false⟩ 200
        false fuel none = some pages ∧
      (∀ page ∈ pages, page.length ≤ 2) ∧
      pages.flatten.Pairwise (fun a b => Listed false a.key b.key) ∧
      pages.flatten.Perm (sampleHistory.transactions.filter
        fun tx => 7 ≤ tx.lgrSeq ∧ tx.lgrSeq ≤ 8) := by
  refine follow_complete _ ⟨.zero, 7, 8, by decide, none, 2, false⟩ 200 false ?_ (by decide)
    (by decide)
  intro data hdata
  cases hdata
  exact ⟨by simp [sampleHistory, AccountTx.key], by decide⟩

end Xahau.Rdb
