import Xahau.Basics.Protocol
import Xahau.Data.OrderedMap

/-! # The report of the validators (`Change.cpp`, `ApplyStateTable.cpp`)

The pseudo-transactions `UNLReport` of a ledger name active validators and keys that sign validator
lists, which are collected in one object with two arrays. Whether an array is begun anew is decided
by `sfPreviousTxnLgrSeq`, which is written after a transaction that changed the object, and only
then. `reportsExactly_iff` says for which transactions the arrays are exactly what was reported. -/

namespace Xahau.Change

open List OrderedMap

/-! ## The object and the transactions -/

/-- An entry of `sfActiveValidators` or of `sfImportVLKeys`. -/
structure ReportEntry where
  publicKey : Blob
  account : Option AccountID
  deriving DecidableEq

/-- The fields of `ltUNL_REPORT`. A new object has the numbers of its template. -/
structure UNLReport where
  importVLKeys : Option (List ReportEntry) := none
  activeValidators : Option (List ReportEntry) := none
  previousTxnID : UInt256 := .zero
  previousTxnLgrSeq : ℕ := 0
  deriving DecidableEq

/-- The fields of `ttUNL_REPORT`: the keys in `sfActiveValidator` and `sfImportVLKey`.
`Change::preflight` asks for one of them. -/
structure UNLReportTx where
  transactionID : UInt256
  activeValidator : Option Blob
  importVLKey : Option Blob
  hasKey : activeValidator.isSome ∨ importVLKey.isSome
  deriving DecidableEq

/-- The two arrays of the object. -/
inductive ReportArray : Type where
  | sfActiveValidators
  | sfImportVLKeys
  deriving DecidableEq

instance (P : ReportArray → Prop) [DecidablePred P] : Decidable (∀ array, P array) :=
  decidable_of_iff (P .sfActiveValidators ∧ P .sfImportVLKeys)
    ⟨fun h array => match array with
      | .sfActiveValidators => h.1
      | .sfImportVLKeys => h.2,
    fun h => ⟨h _, h _⟩⟩

def UNLReport.array (sle : UNLReport) : ReportArray → Option (List ReportEntry)
  | .sfActiveValidators => sle.activeValidators
  | .sfImportVLKeys => sle.importVLKeys

/-- What a transaction carries for an array. -/
def UNLReportTx.key (tx : UNLReportTx) : ReportArray → Option Blob
  | .sfActiveValidators => tx.activeValidator
  | .sfImportVLKeys => tx.importVLKey

/-- The public key that the bytes encode, if they encode one. -/
def publicKeyOf (pk : Blob) : Option PublicKey :=
  if h : (publicKeyType pk).isSome then some ⟨pk, h⟩ else none

theorem publicKeyOf_eq_some {pk : Blob} {p : PublicKey} : publicKeyOf pk = some p ↔ pk = p.data := by
  rw [publicKeyOf]
  constructor
  · intro h
    split at h
    · cases h
      rfl
    · cases h
  · rintro rfl
    rw [dif_pos p.isKey]

/-- The order of the keys in `std::map<PublicKey, …>` is that of their bytes. -/
def keyLess (p q : PublicKey) : Prop := p.data < q.data

instance : DecidableRel keyLess := fun p q => inferInstanceAs (Decidable (p.data < q.data))

instance : IsTrans PublicKey keyLess := ⟨fun _ _ _ h h' => List.lt_trans h h'⟩

instance : Std.Trichotomous keyLess := ⟨fun p q h h' => by
  have hdata : p.data = q.data := Std.Trichotomous.trichotomous (r := fun a b => a < b) _ _ h h'
  cases p
  cases q
  cases hdata
  rfl⟩

section Apply

variable (calcAccountID : PublicKey → AccountID)

/-- The entries of an array that encode a key, with the accounts. -/
def existingKeys (existing : List ReportEntry) : List (PublicKey × AccountID) :=
  existing.filterMap fun obj =>
    (publicKeyOf obj.publicKey).map fun p => (p, obj.account.getD (calcAccountID p))

/-- The key of the transaction, when it encodes one. -/
def givenKey (given : Option Blob) : List (PublicKey × AccountID) :=
  ((given.bind publicKeyOf).map fun p => (p, calcAccountID p)).toList

/-- `canonicalize`: the array with the key of the transaction. -/
def canonicalize (reset : Bool) (array : Option (List ReportEntry)) (given : Option Blob) :
    List ReportEntry :=
  let existing := if reset then [] else array.getD []
  let ordered := OrderedMap.emplaceAll keyLess [] (existingKeys calcAccountID existing)
  let ordered := OrderedMap.emplaceAll keyLess ordered (givenKey calcAccountID given)
  ordered.map fun entry => ⟨entry.1.data, some entry.2⟩

section

variable (seq : ℕ) (sle : Option UNLReport)

/-- `Change::applyUNLReport`, for the object in the ledger `seq` or a new one. -/
def applyUNLReport (sle : UNLReport) (tx : UNLReportTx) : UNLReport :=
  let reset := decide (sle.previousTxnLgrSeq < seq)
  let sle₁ :=
    if tx.activeValidator.isSome then
      { sle with
        activeValidators := canonicalize calcAccountID reset sle.activeValidators tx.activeValidator }
    else sle
  if tx.importVLKey.isSome then
    { sle₁ with importVLKeys := canonicalize calcAccountID reset sle₁.importVLKeys tx.importVLKey }
  else sle₁

/-- `STLedgerEntry::thread`. -/
def UNLReport.thread (sle : UNLReport) (txID : UInt256) (ledgerSeq : ℕ) : UNLReport :=
  if sle.previousTxnID = txID then sle
  else { sle with previousTxnID := txID, previousTxnLgrSeq := ledgerSeq }

/-- `ApplyStateTable::generateTxMeta`: a modified object that did not change is not threaded. -/
def generateTxMeta (txID : UInt256) (origNode : Option UNLReport) (curNode : UNLReport) :
    UNLReport :=
  match origNode with
  | some origNode => if curNode = origNode then curNode else curNode.thread txID seq
  | none => curNode.thread txID seq

/-- A transaction is applied to the ledger. -/
def applyReport (tx : UNLReportTx) : UNLReport :=
  generateTxMeta seq tx.transactionID sle (applyUNLReport calcAccountID seq (sle.getD {}) tx)

/-- The transactions of a ledger are applied one after the other. -/
def applyReports (txs : List UNLReportTx) : Option UNLReport :=
  txs.foldl (fun sle tx => some (applyReport calcAccountID seq sle tx)) sle

end

end Apply

/-! ## What an array lists -/

/-- The keys that the entries of an array encode. -/
def encodedKeys (array : Option (List ReportEntry)) : Set PublicKey :=
  {p | ∃ entries ∈ array, p.data ∈ entries.map ReportEntry.publicKey}

/-- The valid keys that transactions report for an array. -/
def reported (txs : List UNLReportTx) (array : ReportArray) : Set PublicKey :=
  {p | ∃ tx ∈ txs, tx.key array = some p.data}

/-- Some transaction carries a key for the array, valid or not. -/
def Carried (txs : List UNLReportTx) (array : ReportArray) : Prop :=
  ∃ tx ∈ txs, (tx.key array).isSome

instance (txs : List UNLReportTx) (array : ReportArray) : Decidable (Carried txs array) :=
  inferInstanceAs (Decidable (∃ tx ∈ txs, (tx.key array).isSome = true))

/-- The entries are the keys of a set, each one once and in their order. -/
def ListsExactly (entries : List ReportEntry) (keys : Set PublicKey) : Prop :=
  ∃ l : List PublicKey,
    entries.map ReportEntry.publicKey = l.map PublicKey.data ∧ l.Pairwise keyLess ∧
      ∀ p, p ∈ l ↔ p ∈ keys

theorem ListsExactly.encodedKeys_eq {entries : List ReportEntry} {keys : Set PublicKey}
    (h : ListsExactly entries keys) : encodedKeys (some entries) = keys := by
  obtain ⟨l, hmap, -, hmem⟩ := h
  ext p
  rw [← hmem]
  constructor
  · rintro ⟨_, hents, hp⟩
    cases hents
    rw [hmap, mem_map] at hp
    obtain ⟨q, hq, hdata⟩ := hp
    cases p
    cases q
    cases hdata
    exact hq
  · intro hp
    refine ⟨entries, rfl, ?_⟩
    rw [hmap]
    exact mem_map_of_mem hp

section

variable (calcAccountID : PublicKey → AccountID) (reset : Bool) (array : Option (List ReportEntry))
  (given : Option Blob)

theorem mem_keys_existingKeys (existing : List ReportEntry) (p : PublicKey) :
    p ∈ OrderedMap.keys (existingKeys calcAccountID existing) ↔
      p.data ∈ existing.map ReportEntry.publicKey := by
  simp only [OrderedMap.keys, existingKeys, mem_map, mem_filterMap, Option.map_eq_some_iff,
    publicKeyOf_eq_some]
  constructor
  · rintro ⟨_, ⟨obj, hobj, q, hq, rfl⟩, rfl⟩
    exact ⟨obj, hobj, hq⟩
  · rintro ⟨obj, hobj, hq⟩
    exact ⟨_, ⟨obj, hobj, p, hq, rfl⟩, rfl⟩

theorem mem_keys_givenKey (p : PublicKey) :
    p ∈ OrderedMap.keys (givenKey calcAccountID given) ↔ given = some p.data := by
  simp only [OrderedMap.keys, givenKey, mem_map, Option.mem_toList,
    Option.map_eq_some_iff, Option.bind_eq_some_iff, publicKeyOf_eq_some]
  constructor
  · rintro ⟨_, ⟨q, ⟨pk, hpk, rfl⟩, rfl⟩, rfl⟩
    exact hpk
  · intro h
    exact ⟨_, ⟨p, ⟨p.data, h, rfl⟩, rfl⟩, rfl⟩

theorem listsExactly_canonicalize :
    ListsExactly (canonicalize calcAccountID reset array given)
      ({p | reset = false ∧ p ∈ encodedKeys array} ∪ {p | given = some p.data}) := by
  rw [canonicalize]
  set existing := if reset then [] else array.getD [] with hexi
  have hkept : ∀ p : PublicKey, p.data ∈ existing.map ReportEntry.publicKey ↔
      reset = false ∧ p ∈ encodedKeys array := by
    intro p
    cases reset <;> cases array <;> simp [hexi, encodedKeys]
  refine ⟨OrderedMap.keys (emplaceAll keyLess
    (emplaceAll keyLess [] (existingKeys calcAccountID existing))
    (givenKey calcAccountID given)), ?_, ?_, fun p => ?_⟩
  · rw [map_map, OrderedMap.keys, map_map]
    rfl
  · exact pairwise_keys_emplaceAll keyLess
      (pairwise_keys_emplaceAll keyLess .nil _) _
  rw [mem_keys_emplaceAll, mem_keys_emplaceAll, mem_keys_existingKeys,
    mem_keys_givenKey, hkept, OrderedMap.keys_nil, Set.mem_union]
  simp

end

/-! ## One transaction -/

theorem UNLReport.ext_array {sle sle' : UNLReport} (harr : sle.array = sle'.array)
    (hid : sle.previousTxnID = sle'.previousTxnID)
    (hseq : sle.previousTxnLgrSeq = sle'.previousTxnLgrSeq) : sle = sle' := by
  have hvl := congrFun harr .sfImportVLKeys
  have hav := congrFun harr .sfActiveValidators
  cases sle
  cases sle'
  cases hvl
  cases hav
  cases hid
  cases hseq
  rfl

section Step

variable (calcAccountID : PublicKey → AccountID) (seq : ℕ) (tx : UNLReportTx)

theorem array_applyUNLReport (sle : UNLReport) (array : ReportArray) :
    (applyUNLReport calcAccountID seq sle tx).array array =
      if (tx.key array).isSome then
        some (canonicalize calcAccountID (decide (sle.previousTxnLgrSeq < seq)) (sle.array array)
          (tx.key array))
      else sle.array array := by
  rw [applyUNLReport]
  cases array <;> cases hav : tx.activeValidator <;> cases hvl : tx.importVLKey <;>
    simp [UNLReport.array, UNLReportTx.key, hav, hvl]

theorem previous_applyUNLReport (sle : UNLReport) :
    (applyUNLReport calcAccountID seq sle tx).previousTxnID = sle.previousTxnID ∧
      (applyUNLReport calcAccountID seq sle tx).previousTxnLgrSeq = sle.previousTxnLgrSeq := by
  rw [applyUNLReport]
  cases tx.activeValidator <;> cases tx.importVLKey <;> exact ⟨rfl, rfl⟩

theorem UNLReport.array_thread (sle : UNLReport) (txID : UInt256) :
    (sle.thread txID seq).array = sle.array := by
  rw [UNLReport.thread]
  split
  · rfl
  · funext array
    cases array <;> rfl

variable {sle : UNLReport}

theorem array_applyReport (sle : Option UNLReport) :
    (applyReport calcAccountID seq sle tx).array =
      (applyUNLReport calcAccountID seq (sle.getD {}) tx).array := by
  rw [applyReport]
  cases sle with
  | none => exact UNLReport.array_thread seq _ _
  | some sle =>
    rw [generateTxMeta]
    split
    · rfl
    · exact UNLReport.array_thread seq _ _

theorem seq_applyReport (h : sle.previousTxnLgrSeq = seq) :
    (applyReport calcAccountID seq (some sle) tx).previousTxnLgrSeq = seq := by
  have hcur := (previous_applyUNLReport calcAccountID seq tx sle).2.trans h
  rw [applyReport, generateTxMeta]
  split
  · exact hcur
  rw [UNLReport.thread]
  split
  · exact hcur
  · rfl

end Step

/-! ## Transactions after the object was written -/

theorem reported_cons (tx : UNLReportTx) (txs : List UNLReportTx) (array : ReportArray) :
    reported (tx :: txs) array = {p | tx.key array = some p.data} ∪ reported txs array := by
  ext p
  simp [reported]

theorem reported_append (txs txs' : List UNLReportTx) (array : ReportArray) :
    reported (txs ++ txs') array = reported txs array ∪ reported txs' array := by
  ext p
  simp [reported, or_and_right, exists_or]

variable {txs : List UNLReportTx} {tx : UNLReportTx}

section

variable {txs' : List UNLReportTx} {array : ReportArray}

theorem reported_eq_empty (h : ¬ Carried txs array) : reported txs array = ∅ := by
  refine Set.eq_empty_of_forall_notMem fun p hp => h ?_
  obtain ⟨tx, hmem, hkey⟩ := hp
  exact ⟨tx, hmem, by rw [hkey, Option.isSome_some]⟩

theorem carried_cons : Carried (tx :: txs) array ↔ (tx.key array).isSome ∨ Carried txs array := by
  simp [Carried]

theorem carried_append : Carried (txs ++ txs') array ↔ Carried txs array ∨ Carried txs' array := by
  simp [Carried, or_and_right, exists_or]

/-- An array after transactions: unchanged if none carries a key for it, else the kept and the
reported keys. -/
def Gathers (txs : List UNLReportTx) (array : ReportArray) (kept : Set PublicKey)
    (before after : Option (List ReportEntry)) : Prop :=
  if Carried txs array then
    ∃ entries, after = some entries ∧ ListsExactly entries (kept ∪ reported txs array)
  else after = before

theorem Gathers.cons {kept : Set PublicKey} {before middle after : Option (List ReportEntry)}
    (hfirst : Gathers [tx] array kept before middle)
    (hrest : Gathers txs array (encodedKeys middle) middle after)
    (hkept : ¬ (tx.key array).isSome → kept = encodedKeys before) :
    Gathers (tx :: txs) array kept before after := by
  have hone : Carried [tx] array ↔ (tx.key array).isSome := by simp [Carried]
  rw [Gathers, reported_cons]
  rw [Gathers] at hfirst hrest
  by_cases hkey : (tx.key array).isSome
  · rw [if_pos (hone.2 hkey), reported_cons, show reported [] array = ∅ from
      reported_eq_empty (by simp [Carried]), Set.union_empty] at hfirst
    obtain ⟨entries, rfl, hents⟩ := hfirst
    rw [if_pos (carried_cons.2 (.inl hkey))]
    split at hrest
    next =>
      rw [hents.encodedKeys_eq, Set.union_assoc] at hrest
      exact hrest
    next hcar =>
      rw [reported_eq_empty hcar, Set.union_empty]
      exact ⟨entries, hrest, hents⟩
  · rw [if_neg (mt hone.1 hkey)] at hfirst
    subst hfirst
    have hn : {p : PublicKey | tx.key array = some p.data} = ∅ := by
      refine Set.eq_empty_of_forall_notMem fun p (hp : tx.key array = some p.data) => hkey ?_
      rw [hp, Option.isSome_some]
    rw [hn, Set.empty_union, hkept hkey]
    by_cases hcar : Carried txs array
    · rw [if_pos (carried_cons.2 (.inr hcar))]
      rw [if_pos hcar] at hrest
      exact hrest
    · rw [if_neg (by rw [carried_cons]; tauto)]
      rw [if_neg hcar] at hrest
      exact hrest

end

section Run

variable (calcAccountID : PublicKey → AccountID) (seq : ℕ)

theorem gathers_applyReport (sle : Option UNLReport) (tx : UNLReportTx) (array : ReportArray) :
    Gathers [tx] array
      {p | ¬ (sle.getD {}).previousTxnLgrSeq < seq ∧ p ∈ encodedKeys ((sle.getD {}).array array)}
      ((sle.getD {}).array array) ((applyReport calcAccountID seq sle tx).array array) := by
  have hlis := listsExactly_canonicalize calcAccountID
    (decide ((sle.getD {}).previousTxnLgrSeq < seq)) ((sle.getD {}).array array) (tx.key array)
  rw [array_applyReport, array_applyUNLReport, Gathers, reported_cons,
    show reported [] array = ∅ from reported_eq_empty (by simp [Carried]), Set.union_empty]
  by_cases hkey : (tx.key array).isSome
  · rw [if_pos (by simp [Carried, hkey]), if_pos hkey]
    simp only [decide_eq_false_iff_not] at hlis
    exact ⟨_, rfl, hlis⟩
  · rw [if_neg (by simp [Carried, hkey]), if_neg hkey]

variable {txs : List UNLReportTx} {prev : Option UNLReport} {sle : UNLReport} {tx : UNLReportTx}

/-- **Transactions that find the object of this ledger add their keys.** -/
theorem gathers_applyReports (hseq : sle.previousTxnLgrSeq = seq) (txs : List UNLReportTx) :
    ∃ sle', applyReports calcAccountID seq (some sle) txs = some sle' ∧
      ∀ array, Gathers txs array (encodedKeys (sle.array array)) (sle.array array)
        (sle'.array array) := by
  induction txs generalizing sle with
  | nil => exact ⟨sle, rfl, fun array => by rw [Gathers, if_neg (by simp [Carried])]⟩
  | cons tx txs ih =>
    obtain ⟨sle', happ, hrest⟩ := ih (seq_applyReport calcAccountID seq tx hseq)
    refine ⟨sle', happ, fun array => ?_⟩
    have hfirst := gathers_applyReport calcAccountID seq (some sle) tx array
    simp only [Option.getD_some, hseq, lt_irrefl, not_false_eq_true, true_and,
      Set.ofPred_mem_eq] at hfirst
    exact hfirst.cons (hrest array) fun _ => rfl

/-! ## Transactions that repeat the object of an earlier ledger -/

/-- The array with one key, as it is written at the beginning of a ledger. -/
def soleReport (pk : Blob) : List ReportEntry :=
  match publicKeyOf pk with
  | none => []
  | some p => [⟨p.data, some (calcAccountID p)⟩]

/-- The transaction reports what the object has, in each array that it carries a key for. -/
def Repeats (prev : Option UNLReport) (tx : UNLReportTx) : Prop :=
  ∃ sle ∈ prev, ∀ array, ∀ pk ∈ tx.key array,
    sle.array array = some (soleReport calcAccountID pk)

instance (prev : Option UNLReport) : DecidablePred (Repeats calcAccountID prev) := fun tx =>
  inferInstanceAs (Decidable (∃ sle ∈ prev, ∀ array, ∀ pk ∈ tx.key array,
    sle.array array = some (soleReport calcAccountID pk)))

theorem canonicalize_reset (array : Option (List ReportEntry)) (pk : Blob) :
    canonicalize calcAccountID true array (some pk) = soleReport calcAccountID pk := by
  rw [canonicalize, soleReport, givenKey, Option.bind_some]
  cases publicKeyOf pk <;> rfl

theorem listsExactly_soleReport (pk : Blob) :
    ListsExactly (soleReport calcAccountID pk) {p | pk = p.data} := by
  have hlis := listsExactly_canonicalize calcAccountID true none (some pk)
  rw [canonicalize_reset] at hlis
  simpa using hlis

theorem applyUNLReport_eq_self_iff (hseq : sle.previousTxnLgrSeq < seq) (tx : UNLReportTx) :
    applyUNLReport calcAccountID seq sle tx = sle ↔ Repeats calcAccountID (some sle) tx := by
  have harr := array_applyUNLReport calcAccountID seq tx sle
  simp only [hseq, decide_true] at harr
  constructor
  · intro heq
    refine ⟨sle, rfl, fun array pk hpk => ?_⟩
    have hwri := harr array
    rw [heq, hpk, Option.isSome_some, if_pos rfl, canonicalize_reset] at hwri
    exact hwri
  · rintro ⟨_, hsle, hrep⟩
    cases hsle
    obtain ⟨hid, hprev⟩ := previous_applyUNLReport calcAccountID seq tx sle
    refine UNLReport.ext_array (funext fun array => ?_) hid hprev
    rw [harr]
    cases hkey : tx.key array with
    | none => rfl
    | some pk =>
      rw [Option.isSome_some, if_pos rfl, canonicalize_reset]
      exact (hrep array pk hkey).symm

theorem applyReports_of_repeats (hprev : ∀ sle ∈ prev, sle.previousTxnLgrSeq < seq)
    (h : ∀ tx ∈ txs, Repeats calcAccountID prev tx) : applyReports calcAccountID seq prev txs = prev := by
  induction txs with
  | nil => rfl
  | cons tx txs ih =>
    obtain ⟨sle, rfl, hrep⟩ := h tx mem_cons_self
    have hself := (applyUNLReport_eq_self_iff calcAccountID seq (hprev sle rfl) tx).2
      ⟨sle, rfl, hrep⟩
    have hfirst : applyReport calcAccountID seq (some sle) tx = sle := by
      rw [applyReport, generateTxMeta, Option.getD_some, if_pos hself, hself]
    rw [applyReports, foldl_cons, hfirst]
    exact ih fun tx htx => h tx (mem_cons_of_mem _ htx)

section

variable (hprev : ∀ sle ∈ prev, sle.previousTxnLgrSeq < seq)
  (hnew : tx.transactionID ≠ (prev.getD {}).previousTxnID) (h : ¬ Repeats calcAccountID prev tx)

include hprev hnew h

theorem seq_applyReport_of_not_repeats :
    (applyReport calcAccountID seq prev tx).previousTxnLgrSeq = seq := by
  have hid := (previous_applyUNLReport calcAccountID seq tx (prev.getD {})).1
  have hthr : ((applyUNLReport calcAccountID seq (prev.getD {}) tx).thread tx.transactionID
      seq).previousTxnLgrSeq = seq := by
    rw [UNLReport.thread, if_neg (by rw [hid]; exact hnew.symm)]
  rw [applyReport]
  cases prev with
  | none => exact hthr
  | some sle =>
    have hcha := mt (applyUNLReport_eq_self_iff calcAccountID seq (hprev sle rfl) tx).1 h
    rw [Option.getD_some] at hthr
    rw [generateTxMeta, Option.getD_some, if_neg hcha]
    exact hthr

/-- The keys of an earlier ledger that stay: none in an array for which the threaded transaction
carries a key. -/
def keptKeys (prev : Option UNLReport) (tx : UNLReportTx) (array : ReportArray) : Set PublicKey :=
  if (tx.key array).isSome then ∅ else encodedKeys ((prev.getD {}).array array)

/-- **The transactions from the first one on that does not repeat the object.** -/
theorem gathers_of_not_repeats (txs : List UNLReportTx) :
    ∃ sle, applyReports calcAccountID seq prev (tx :: txs) = some sle ∧
      ∀ array, Gathers (tx :: txs) array (keptKeys prev tx array) ((prev.getD {}).array array)
        (sle.array array) := by
  have hseq := seq_applyReport_of_not_repeats calcAccountID seq hprev hnew h
  obtain ⟨sle, happ, hrest⟩ := gathers_applyReports calcAccountID seq hseq txs
  refine ⟨sle, happ, fun array => ?_⟩
  refine Gathers.cons ?_ (hrest array) fun hkey => by rw [keptKeys, if_neg hkey]
  have hfirst := gathers_applyReport calcAccountID seq prev tx array
  by_cases hkey : (tx.key array).isSome
  · -- nothing is kept: a new object has no array, and an earlier one is reset
    have hn : {p | ¬ (prev.getD {}).previousTxnLgrSeq < seq ∧
        p ∈ encodedKeys ((prev.getD {}).array array)} = (∅ : Set PublicKey) := by
      cases prev with
      | none => cases array <;> simp [encodedKeys, UNLReport.array]
      | some sle => simp [hprev sle rfl]
    rw [hn] at hfirst
    rw [keptKeys, if_pos hkey]
    exact hfirst
  · rw [Gathers, if_neg (by simp [Carried, hkey])] at hfirst ⊢
    exact hfirst

end

theorem listsExactly_of_repeats
    (h : ∀ tx ∈ txs, Repeats calcAccountID (some sle) tx) {array : ReportArray}
    (hcar : Carried txs array) :
    ∃ entries, sle.array array = some entries ∧ ListsExactly entries (reported txs array) := by
  have hsole : ∀ tx ∈ txs, ∀ pk ∈ tx.key array,
      sle.array array = some (soleReport calcAccountID pk) := by
    intro tx htx pk hpk
    obtain ⟨_, hsle, hrepe⟩ := h tx htx
    cases hsle
    exact hrepe array pk hpk
  obtain ⟨tx, htx, hkey⟩ := hcar
  obtain ⟨pk, hpk⟩ := Option.isSome_iff_exists.1 hkey
  have hlis := listsExactly_soleReport calcAccountID pk
  refine ⟨_, hsole tx htx pk hpk, ?_⟩
  -- any other key that is reported stands in the same array
  have hrep : reported txs array = {p | pk = p.data} := by
    ext p
    constructor
    · rintro ⟨tx', htx', hp⟩
      rw [← hlis.encodedKeys_eq, ← hsole tx htx pk hpk, hsole tx' htx' p.data hp,
        (listsExactly_soleReport calcAccountID p.data).encodedKeys_eq]
      rfl
    · rintro rfl
      exact ⟨tx, htx, hpk⟩
  rw [hrep]
  exact hlis

/-! ## The arrays of a ledger -/

section

variable (prev : Option UNLReport) (txs : List UNLReportTx)

/-- The arrays are what the transactions of the ledger reported, if they carried keys. -/
def ReportsExactly : Prop :=
  ∀ array, Carried txs array →
    ∃ sle ∈ applyReports calcAccountID seq prev txs, ∃ entries,
      sle.array array = some entries ∧ ListsExactly entries (reported txs array)

/-- The transactions clear the object of an earlier ledger and lose no key. Those at the start that
repeat the object are not threaded, so the next one resets what it carries a key for: their keys
must be reported again. An array that it carries no key for is not reset any more: its keys must all
be reported. -/
def Clears : Prop :=
  let repeating := txs.takeWhile fun tx => Repeats calcAccountID prev tx
  let rest := txs.dropWhile fun tx => Repeats calcAccountID prev tx
  ∀ tx ∈ rest.head?, ∀ array, Carried rest array →
    if (tx.key array).isSome then reported repeating array ⊆ reported rest array
    else encodedKeys ((prev.getD {}).array array) ⊆ reported txs array

end

theorem reportsExactly_array {repeating rest : List UNLReportTx}
    {array : ReportArray} {after : Option (List ReportEntry)}
    (hrep : ∀ tx ∈ repeating, Repeats calcAccountID prev tx)
    (hgat : Gathers (tx :: rest) array (keptKeys prev tx array) ((prev.getD {}).array array)
      after) :
    (Carried (repeating ++ tx :: rest) array → ∃ entries, after = some entries ∧
        ListsExactly entries (reported (repeating ++ tx :: rest) array)) ↔
      (Carried (tx :: rest) array →
        if (tx.key array).isSome then reported repeating array ⊆ reported (tx :: rest) array
        else encodedKeys ((prev.getD {}).array array) ⊆
          reported (repeating ++ tx :: rest) array) := by
  rw [Gathers] at hgat
  split at hgat
  next hcar =>
    obtain ⟨entries, rfl, hents⟩ := hgat
    have hexa : (∃ entries', some entries = some entries' ∧
        ListsExactly entries' (reported (repeating ++ tx :: rest) array)) ↔
        keptKeys prev tx array ∪ reported (tx :: rest) array =
          reported (repeating ++ tx :: rest) array := by
      constructor
      · rintro ⟨entries', heq, hlis⟩
        cases heq
        rw [← hents.encodedKeys_eq, hlis.encodedKeys_eq]
      · intro heq
        exact ⟨entries, rfl, heq ▸ hents⟩
    simp only [carried_append, hcar, or_true, true_implies, hexa]
    rw [reported_append, keptKeys]
    split
    next => rw [Set.empty_union, eq_comm, Set.union_eq_right]
    next =>
      have hkept : reported repeating array ⊆ encodedKeys ((prev.getD {}).array array) := by
        rintro p ⟨tx', htx', hp⟩
        obtain ⟨sle, rfl, hrepe⟩ := hrep tx' htx'
        rw [Option.getD_some, hrepe array p.data hp,
          (listsExactly_soleReport calcAccountID p.data).encodedKeys_eq]
        rfl
      constructor
      · intro heq
        rw [← heq]
        exact Set.subset_union_left
      · intro hsub
        exact Set.Subset.antisymm (Set.union_subset hsub Set.subset_union_right)
          (Set.union_subset_union_left _ hkept)
  next hcar =>
    refine ⟨fun _ h => absurd h hcar, fun _ h => ?_⟩
    have hfirst := (carried_append.1 h).resolve_right hcar
    obtain ⟨tx', htx', -⟩ := id hfirst
    obtain ⟨sle, rfl, -⟩ := hrep tx' htx'
    rw [hgat, reported_append, reported_eq_empty hcar, Set.union_empty]
    exact listsExactly_of_repeats calcAccountID hrep hfirst

/-- **The report of a ledger.** Whatever the earlier object was, the arrays are exactly the sorted
keys reported in this ledger iff the transactions clear the object. -/
theorem reportsExactly_iff {prev : Option UNLReport}
    (hprev : ∀ sle ∈ prev, sle.previousTxnLgrSeq < seq) {txs : List UNLReportTx}
    (hnew : ∀ tx ∈ txs, tx.transactionID ≠ (prev.getD {}).previousTxnID) :
    ReportsExactly calcAccountID seq prev txs ↔ Clears calcAccountID prev txs := by
  have hsplit : txs.takeWhile (fun tx => Repeats calcAccountID prev tx) ++
      txs.dropWhile (fun tx => Repeats calcAccountID prev tx) = txs := takeWhile_append_dropWhile
  have hrepeat : ∀ tx ∈ txs.takeWhile (fun tx => Repeats calcAccountID prev tx),
      Repeats calcAccountID prev tx := fun tx htx => by
    simpa using mem_takeWhile_imp htx
  rw [ReportsExactly, Clears]
  generalize txs.takeWhile (fun tx => decide (Repeats calcAccountID prev tx)) = repeating at *
  cases hrest : txs.dropWhile (fun tx => decide (Repeats calcAccountID prev tx)) with
  | nil =>
    rw [hrest, append_nil] at hsplit
    subst hsplit
    refine ⟨fun _ tx htx => (by cases htx), fun _ array hcarried => ?_⟩
    obtain ⟨tx, htx, -⟩ := id hcarried
    obtain ⟨sle, rfl, -⟩ := hrepeat tx htx
    rw [applyReports_of_repeats calcAccountID seq hprev hrepeat]
    exact ⟨sle, rfl, listsExactly_of_repeats calcAccountID hrepeat hcarried⟩
  | cons tx rest =>
    have hchanged : ¬ Repeats calcAccountID prev tx := by
      have hne : txs.dropWhile (fun tx => decide (Repeats calcAccountID prev tx)) ≠ [] := by
        rw [hrest]
        exact cons_ne_nil _ _
      simpa [hrest] using head_dropWhile_not _ hne
    rw [hrest] at hsplit
    subst hsplit
    have hid := hnew tx (mem_append_right _ mem_cons_self)
    obtain ⟨sle, happly, hgathers⟩ :=
      gathers_of_not_repeats calcAccountID seq hprev hid hchanged rest
    have hrun : applyReports calcAccountID seq prev (repeating ++ tx :: rest) = some sle := by
      rw [applyReports, foldl_append]
      change applyReports _ _ (applyReports _ _ prev repeating) _ = _
      rw [applyReports_of_repeats calcAccountID seq hprev hrepeat, happly]
    have harray := fun array => reportsExactly_array calcAccountID hrepeat (hgathers array)
    simp only [hrun, Option.mem_some_iff, exists_eq_left', List.head?_cons, forall_eq', harray]

end Run

/-- A transaction of the examples, with the number of its identifier. -/
def sampleReport (id : UInt8) (activeValidator importVLKey : Option PublicKey)
    (h : activeValidator.isSome ∨ importVLKey.isSome) : UNLReportTx where
  transactionID := .ofByte id
  activeValidator := activeValidator.map PublicKey.data
  importVLKey := importVLKey.map PublicKey.data
  hasKey := by simpa using h

/-- Three transactions of the first report. -/
def sampleReports : List UNLReportTx :=
  [sampleReport 2 (some (.ofByte 7)) none (.inl rfl),
    sampleReport 3 none (some (.ofByte 9)) (.inr rfl),
    sampleReport 4 (some (.ofByte 5)) none (.inl rfl)]

theorem sampleReports_exact : ReportsExactly (fun _ => .zero) 2 none sampleReports := by
  refine (reportsExactly_iff (fun _ => .zero) 2 (by simp) (by decide)).2 ?_
  intro tx htx array _
  have hnone : encodedKeys (((none : Option UNLReport).getD {}).array array) = ∅ := by
    cases array <;> simp [encodedKeys, UNLReport.array]
  split
  · rintro p ⟨tx', htx', -⟩
    have hnil : sampleReports.takeWhile (fun tx => Repeats (fun _ => .zero) none tx) = [] := by
      decide
    rw [hnil] at htx'
    cases htx'
  · rw [hnone]
    exact Set.empty_subset _

/-- A report of the ledger 1 with one key in each array. -/
def earlierReport : UNLReport where
  activeValidators := some [⟨(PublicKey.ofByte 7).data, some .zero⟩]
  importVLKeys := some [⟨(PublicKey.ofByte 9).data, some .zero⟩]
  previousTxnID := .ofByte 1
  previousTxnLgrSeq := 1

/-- Two validators are reported in ledger 2, the first of which is that of ledger 1: it is lost. A
validator and then a list key are reported: the list key of ledger 1 stays. -/
theorem report_lost_or_stale :
    ¬ ReportsExactly (fun _ => .zero) 2 (some earlierReport)
        [sampleReport 2 (some (.ofByte 7)) none (.inl rfl),
          sampleReport 3 (some (.ofByte 5)) none (.inl rfl)] ∧
      ¬ ReportsExactly (fun _ => .zero) 2 (some earlierReport)
        [sampleReport 2 (some (.ofByte 5)) none (.inl rfl),
          sampleReport 3 none (some (.ofByte 8)) (.inr rfl)] := by
  constructor
  · intro h
    obtain ⟨sle, hsle, entries, harray, hlists⟩ := h .sfActiveValidators ⟨_, mem_cons_self, rfl⟩
    have hmem : PublicKey.ofByte 7 ∈ encodedKeys (sle.array .sfActiveValidators) := by
      rw [harray, hlists.encodedKeys_eq]
      exact ⟨_, mem_cons_self, rfl⟩
    have hrun : ∀ sle ∈ applyReports (fun _ => .zero) 2 (some earlierReport)
        [sampleReport 2 (some (.ofByte 7)) none (.inl rfl),
          sampleReport 3 (some (.ofByte 5)) none (.inl rfl)],
        sle.array .sfActiveValidators = some [⟨(PublicKey.ofByte 5).data, some .zero⟩] := by
      decide +kernel
    rw [hrun sle hsle] at hmem
    obtain ⟨_, hentries, hp⟩ := hmem
    cases hentries
    revert hp
    decide
  · intro h
    obtain ⟨sle, hsle, entries, harray, hlists⟩ :=
      h .sfImportVLKeys ⟨_, mem_cons_of_mem _ mem_cons_self, rfl⟩
    have hrun : ∀ sle ∈ applyReports (fun _ => .zero) 2 (some earlierReport)
        [sampleReport 2 (some (.ofByte 5)) none (.inl rfl),
          sampleReport 3 none (some (.ofByte 8)) (.inr rfl)],
        (PublicKey.ofByte 9).data ∈
          (sle.array .sfImportVLKeys).elim [] (List.map ReportEntry.publicKey) := by
      decide +kernel
    have hmem : PublicKey.ofByte 9 ∈ encodedKeys (some entries) := by
      have hstale := hrun sle hsle
      rw [harray] at hstale
      exact ⟨entries, rfl, hstale⟩
    rw [hlists.encodedKeys_eq] at hmem
    obtain ⟨tx, htx, hkey⟩ := hmem
    revert tx
    decide

end Xahau.Change
