import Xahau.Hook.BaseFee

/-! # The arithmetic of burdens and fees

Burdens and fees are numbers of 64 bits, and an overflow is noticed only when a result is less than
what it was computed from. Every operation is exact modulo `2 ^ 64`, so a computation that notices
nothing returns the exact number, reduced to 64 bits. -/

namespace Xahau.Hook

/-! ## Numbers of 64 bits -/

theorem int64_eq_bmod (x : Int) : int64 x = x.bmod (2 ^ 64) := by
  rw [int64, Int.bmod]
  split <;> omega

theorem int64_eq_self_iff {x : Int} : int64 x = x ↔ -2 ^ 63 ≤ x ∧ x < 2 ^ 63 := by
  rw [int64]
  omega

@[simp] theorem int64_add_int64 (x y : Int) : int64 (int64 x + y) = int64 (x + y) := by
  simp [int64_eq_bmod]

@[simp] theorem int64_int64_add (x y : Int) : int64 (x + int64 y) = int64 (x + y) := by
  simp [int64_eq_bmod]

@[simp] theorem int64_mul_int64 (x y : Int) : int64 (int64 x * int64 y) = int64 (x * y) := by
  simp [int64_eq_bmod]

/-! ## The exact fee -/

section

variable (tsh : List (AccountID × Bool)) (view : View) (tx : STTx)

/-- A "cleanup" transaction is regarded as paid up. -/
def PaidUp : Prop := view.rules.enabled .featureHooks = true ∧ tx.txnType = ttEmitFailure

/-- The base fee and a drop for each byte of parameters. -/
def startFee : Int := referenceFee view tx + paramBytes view tx

/-- The same with a drop for each byte of memos. -/
def bytesFee : Int := startFee view tx + (tx.memos.flatten.map List.length).sum

/-- The burden of an emitted transaction, one for others. -/
def burdenOf : Nat :=
  if view.rules.enabled .featureHooks then (tx.emitDetails.map EmitDetails.emitBurden).getD 1 else 1

/-- A base fee for each signer. -/
def signersFee : Int := (if tx.hasSigners then tx.signerCount else 0) * referenceFee view tx

/-- The fee as a number without bound. -/
def exactFee : Int :=
  bytesFee view tx * burdenOf view tx + signersFee view tx + hookExecutionFee tsh view tx

/-- What is owed after each of the memos. -/
def memoSums : List Blob → Int → List Int
  | [], _ => []
  | memoElement :: memoElements, sum =>
    (sum + memoElement.length) :: memoSums memoElements (sum + memoElement.length)

/-- In 64 bits, no result is less than what it was computed from. -/
def Unnoticed : Prop :=
  (startFee view tx :: memoSums tx.memos.flatten (startFee view tx)).IsChain
      (fun x y => int64 x ≤ int64 y) ∧
    int64 (bytesFee view tx) ≤ int64 (bytesFee view tx * burdenOf view tx) ∧
    int64 (bytesFee view tx * burdenOf view tx)
      ≤ int64 (bytesFee view tx * burdenOf view tx + signersFee view tx) ∧
    int64 (bytesFee view tx * burdenOf view tx + signersFee view tx) ≤ int64 (exactFee tsh view tx)

instance : Decidable (PaidUp view tx) := inferInstanceAs (Decidable (_ ∧ _))

instance : Decidable (Unnoticed tsh view tx) := inferInstanceAs (Decidable (_ ∧ _))

end

theorem addMemos_eq (memoElements : List Blob) (sum : Int) :
    addMemos memoElements (int64 sum) =
      if (sum :: memoSums memoElements sum).IsChain (fun x y => int64 x ≤ int64 y) then
        some (int64 (sum + (memoElements.map List.length).sum))
      else none := by
  induction memoElements generalizing sum with
  | nil => simp [addMemos, memoSums]
  | cons memoElement memoElements ih =>
    rw [addMemos, memoSums, int64_add_int64, ih]
    simp only [List.isChain_cons_cons, List.map_cons, List.sum_cons, Nat.cast_add, ← add_assoc]
    by_cases hless : int64 (sum + memoElement.length) < int64 sum
    · rw [if_pos hless, if_neg fun h => absurd h.1 (not_le.mpr hless)]
    · simp only [hless, if_false, not_lt.mp hless, true_and]

theorem getD_guards {a b c : Prop} [Decidable a] [Decidable b] [Decidable c] (fee default : Int) :
    (do guard a; guard b; guard c; pure fee : Option Int).getD default =
      if a ∧ b ∧ c then fee else default := by
  by_cases a <;> by_cases b <;> by_cases c <;> simp [*]

variable (tsh : List (AccountID × Bool)) (view : View) (tx : STTx)

/-- **The fee is the exact one in 64 bits**, or the largest when an overflow is noticed. -/
theorem calculateBaseFee_eq (h : ¬ PaidUp view tx) :
    calculateBaseFee tsh view tx
      = if Unnoticed tsh view tx then int64 (exactFee tsh view tx) else initialXrp := by
  have hburden : int64 (if view.rules.enabled .featureHooks then
      ((tx.emitDetails.map EmitDetails.emitBurden).getD 1 : Nat) else 1)
        = int64 (burdenOf view tx) := by
    rw [burdenOf]
    split <;> rfl
  rw [calculateBaseFee]
  refine (if_neg h).trans ?_
  dsimp only
  rw [hburden, ← startFee, addMemos_eq, ← bytesFee, ← signersFee]
  by_cases hmemos : (startFee view tx :: memoSums tx.memos.flatten (startFee view tx)).IsChain
      fun x y => int64 x ≤ int64 y
  · have hun : Unnoticed tsh view tx ↔ _ := and_iff_right hmemos
    simp only [hun, if_pos hmemos, Option.bind_eq_bind, Option.bind_some, int64_mul_int64]
    simp only [int64_add_int64, int64_int64_add]
    apply getD_guards
  · rw [if_neg hmemos, if_neg fun hun : Unnoticed tsh view tx => hmemos hun.1]
    rfl

/-! ## When the results are exact -/

/-- An emitted transaction with a large burden. -/
def burdened : STTx where
  transactionID := .ofByte 20
  txnType := 0
  account := .ofByte 1
  emitDetails := some ⟨1, 2 ^ 62 + 1, .zero, .zero, none, .zero⟩

end Xahau.Hook
