import Xahau.Basics.Protocol
import Xahau.Data.Tally

/-! # Votes on amendments (`AmendmentTable.cpp`)

Every flag ledger the servers count the amendments that trusted validators list in their
validations, and decide for each amendment they know of whether it has gained, lost or held a
majority. -/

namespace Xahau.Amendment

open List Tally

/-- What the count reads of an `STValidation`. -/
structure Validation where
  signerPublic : PublicKey
  isTrusted : Bool
  /-- `sfAmendments`, when present. -/
  amendments : Option (List UInt256)

namespace Validation

/-- The amendments that a validation votes for, in the order of its field. -/
def choices (val : Validation) : List UInt256 := val.amendments.getD []

end Validation

/-- The validations of trusted validators. -/
def trusted (valSet : List Validation) : List Validation := valSet.filter fun val => val.isTrusted

/-! ## Counting votes -/

/-- `AmendmentSet`: the status of all amendments requested in a given window. -/
structure AmendmentSet where
  rules : Rules
  /-- How many yes votes each amendment received. -/
  votes : Tally.Counts UInt256
  trustedValidations : Nat
  /-- The number of votes needed. -/
  threshold : Nat

namespace AmendmentSet

/-- The ratios `204/256` and `80/100` of `preFix`- and `postFixAmendmentMajorityCalcThreshold`. -/
def majorityThreshold (rules : Rules) : Nat × Nat :=
  if rules.enabled .fixAmendmentMajorityCalc then (4, 5) else (51, 64)

/-- One iteration of the loop of the constructor. -/
def addValidation (counted : Tally.Counts UInt256 × Nat) (val : Validation) :
    Tally.Counts UInt256 × Nat :=
  if val.isTrusted then (Tally.addBallot counted.1 val.choices, counted.2 + 1) else counted

/-- The constructor of `AmendmentSet`. -/
def ofValidations (rules : Rules) (valSet : List Validation) : AmendmentSet :=
  let (votes, trustedValidations) := valSet.foldl addValidation (∅, 0)
  let (num, den) := majorityThreshold rules
  { rules, votes, trustedValidations, threshold := max 1 (trustedValidations * num / den) }

/-- `AmendmentSet::passes`. -/
def passes (set : AmendmentSet) (amendment : UInt256) : Bool :=
  match set.votes.lookup amendment with
  | none => false
  | some n =>
    if set.rules.enabled .fixAmendmentMajorityCalc = false ∨ set.trustedValidations = 1 then
      decide (set.threshold ≤ n)
    else decide (set.threshold < n)

end AmendmentSet

/-- The ballots of a set of validations. -/
def ballots (valSet : List Validation) : List (List UInt256) :=
  (trusted valSet).map Validation.choices

theorem foldl_addValidation (valSet : List Validation) {votes : Tally.Counts UInt256}
    {keys : List UInt256} (h : Tally.Represents votes keys) (n : Nat) :
    Tally.Represents (valSet.foldl AmendmentSet.addValidation (votes, n)).1
        (keys ++ (ballots valSet).flatten) ∧
      (valSet.foldl AmendmentSet.addValidation (votes, n)).2 = n + (trusted valSet).length := by
  induction valSet generalizing votes keys n with
  | nil =>
    constructor
    · rw [show ballots [] = [] from rfl, flatten_nil, append_nil]
      exact h
    · rfl
  | cons val valSet ih =>
    rw [foldl_cons]
    cases hval : val.isTrusted with
    | true =>
      have hcount : AmendmentSet.addValidation (votes, n) val
          = (addBallot votes val.choices, n + 1) := by
        simp [AmendmentSet.addValidation, hval]
      have htru : trusted (val :: valSet) = val :: trusted valSet := filter_cons_of_pos hval
      obtain ⟨hvot, hlen⟩ := ih (h.addBallot val.choices) (n + 1)
      rw [hcount, ballots, htru, map_cons, flatten_cons, ← append_assoc]
      refine ⟨hvot, ?_⟩
      rw [hlen, length_cons]
      omega
    | false =>
      have hcount : AmendmentSet.addValidation (votes, n) val = (votes, n) := by
        simp [AmendmentSet.addValidation, hval]
      have htru : trusted (val :: valSet) = trusted valSet :=
        filter_cons_of_neg (by simp [hval])
      rw [hcount, ballots, htru]
      exact ih h n

namespace AmendmentSet

variable (rules : Rules) (valSet : List Validation) (a : UInt256)

@[simp] theorem trustedValidations_ofValidations :
    (ofValidations rules valSet).trustedValidations = (trusted valSet).length := by
  have h := (foldl_addValidation valSet represents_empty 0).2
  rw [Nat.zero_add] at h
  exact h

theorem lookup_votes_ofValidations :
    (ofValidations rules valSet).votes.lookup a =
      if listings (ballots valSet) a + repeats (ballots valSet) a = 0 then none
      else some (listings (ballots valSet) a + repeats (ballots valSet) a) := by
  have h := (foldl_addValidation valSet represents_empty 0).1 a
  rw [nil_append, count_flatten_eq] at h
  exact h

/-- With `fixAmendmentMajorityCalc` more than four fifths of the trusted validations pass it, or the
only one. -/
theorem passes_iff (hfix : rules.enabled .fixAmendmentMajorityCalc = true) :
    (ofValidations rules valSet).passes a = true ↔
      4 * (trusted valSet).length <
        5 * (listings (ballots valSet) a + repeats (ballots valSet) a) := by
  have hthr : (ofValidations rules valSet).threshold
      = max 1 ((trusted valSet).length * 4 / 5) := by
    rw [← trustedValidations_ofValidations rules valSet]
    simp [ofValidations, majorityThreshold, hfix]
  have hrul : (ofValidations rules valSet).rules = rules := rfl
  -- no ballot, no vote
  have hlis := listings_le_length (ballots valSet) a
  have hlen : (ballots valSet).length = (trusted valSet).length := length_map ..
  have hrep : listings (ballots valSet) a = 0 → repeats (ballots valSet) a = 0 :=
    repeats_eq_zero_of_listings
  unfold passes
  rw [lookup_votes_ofValidations, hthr, hrul, hfix, trustedValidations_ofValidations]
  by_cases hzero : listings (ballots valSet) a + repeats (ballots valSet) a = 0
  · rw [if_pos hzero, hzero]
    simp
  rw [if_neg hzero]
  by_cases hone : (trusted valSet).length = 1
  · simp only [hone, or_true, if_true, decide_eq_true_eq]
    omega
  · simp only [hone, Bool.true_eq_false, or_self, if_false, decide_eq_true_eq]
    omega

end AmendmentSet

/-! ## Voting -/

/-- `AmendmentVote`. -/
inductive AmendmentVote : Type where
  | obsolete | up | down
  deriving DecidableEq, Repr

/-- `AmendmentState`, as far as it decides a vote. -/
structure AmendmentState where
  vote : AmendmentVote
  supported : Bool
  deriving DecidableEq, Repr

/-- `amendmentMap_`: the amendments that a server knows of. -/
abbrev AmendmentMap := AList fun _ : UInt256 => AmendmentState

/-- `majorityAmendments_t`: the close time at which the majority was recorded. -/
abbrev Majorities := AList fun _ : UInt256 => Nat

section

variable (majorityTime : Nat) (amendmentMap : AmendmentMap) (rules : Rules) (closeTime : Nat)
  (enabledAmendments : List UInt256) (majorityAmendments : Majorities)

/-- `AmendmentTableImpl::doValidation`: what a server lists in its validation. -/
def doValidation (enabled : List UInt256) : List UInt256 :=
  ((amendmentMap.entries.filter fun e =>
    decide (e.2.supported = true ∧ e.2.vote = .up ∧ e.1 ∉ enabled)).map Sigma.fst).mergeSort
      fun a b => decide (a.data ≤ b.data)

/-- The flag of `EnableAmendment` for a gained majority. -/
def tfGotMajority : UInt32 := 0x00010000

/-- The flag of `EnableAmendment` for a lost majority. -/
def tfLostMajority : UInt32 := 0x00020000

/-- The loop body of `doVoting`: the action for one amendment. The recorded time is zero if there is
none. -/
def votingAction (set : AmendmentSet) (amendment : UInt256) (vote : AmendmentVote) :
    Option UInt32 :=
  let hasValMajority := set.passes amendment
  let since := (majorityAmendments.lookup amendment).getD 0
  if amendment ∈ enabledAmendments then none
  else if hasValMajority = true ∧ since = 0 ∧ vote = .up then some tfGotMajority
  else if hasValMajority = false ∧ since ≠ 0 then some tfLostMajority
  else if since ≠ 0 ∧ since + majorityTime ≤ closeTime ∧ vote = .up then some 0
  else none

/-- `AmendmentTableImpl::doVoting`: amendments and the flags of their transactions. -/
def doVoting (valSet : List Validation) : List (UInt256 × UInt32) :=
  let set := AmendmentSet.ofValidations rules valSet
  amendmentMap.entries.filterMap fun e =>
    (votingAction majorityTime closeTime enabledAmendments majorityAmendments set e.1 e.2.vote).map
      fun flags => (e.1, flags)

theorem nodup_doValidation (enabled : List UInt256) :
    (doValidation amendmentMap enabled).Nodup := by
  have hkeys : (amendmentMap.entries.map Sigma.fst).Nodup := amendmentMap.nodupKeys
  unfold doValidation
  rw [(mergeSort_perm _ _).nodup_iff]
  exact hkeys.sublist (filter_sublist.map Sigma.fst)

end

theorem sublist_filterMap_entries {β γ : Type} (entries : List (Sigma fun _ : UInt256 => β))
    (f : UInt256 → β → Option γ) :
    ((entries.filterMap fun e => (f e.1 e.2).map fun c => (e.1, c)).map Prod.fst).Sublist
      (entries.map Sigma.fst) := by
  induction entries with
  | nil => exact List.Sublist.refl _
  | cons e entries ih =>
    rw [filterMap_cons]
    cases hf : f e.1 e.2 with
    | none => exact ih.cons _
    | some c => exact ih.cons_cons _

section

variable {majorityTime closeTime : Nat} {amendmentMap : AmendmentMap} {rules : Rules}
  {enabledAmendments : List UInt256} {majorityAmendments : Majorities}
  {valSet : List Validation} {a : UInt256} {flags : UInt32}

theorem nodup_doVoting :
    ((doVoting majorityTime amendmentMap rules closeTime enabledAmendments majorityAmendments
      valSet).map Prod.fst).Nodup := by
  have hkeys : (amendmentMap.entries.map Sigma.fst).Nodup := amendmentMap.nodupKeys
  exact hkeys.sublist (sublist_filterMap_entries amendmentMap.entries fun a st =>
    votingAction majorityTime closeTime enabledAmendments majorityAmendments
      (AmendmentSet.ofValidations rules valSet) a st.vote)

/-- **The actions of a vote** for an amendment that is not enabled: a majority is gained if none was
recorded, or lost, or enables it when it is old enough. -/
theorem cases_of_mem_doVoting
    (h : (a, flags) ∈ doVoting majorityTime amendmentMap rules closeTime enabledAmendments
      majorityAmendments valSet) :
    flags = tfGotMajority ∨ flags = tfLostMajority ∨
      (flags = 0 ∧ ∃ since, majorityAmendments.lookup a = some since ∧
        since + majorityTime ≤ closeTime) := by
  obtain ⟨e, -, hsome⟩ := mem_filterMap.mp h
  obtain ⟨flags', hact, heq⟩ := Option.map_eq_some_iff.mp hsome
  cases heq
  simp only [votingAction] at hact
  split at hact
  · cases hact
  split at hact
  · cases hact
    exact .inl rfl
  split at hact
  · cases hact
    exact .inr (.inl rfl)
  split at hact
  next hheld =>
    cases hact
    refine .inr (.inr ⟨rfl, ?_⟩)
    -- a time that is not zero was recorded
    cases hlk : majorityAmendments.lookup e.1 with
    | none =>
      rw [hlk] at hheld
      exact absurd rfl hheld.1
    | some since =>
      rw [hlk] at hheld
      exact ⟨since, rfl, hheld.2.1⟩
  · cases hact

end

end Xahau.Amendment
