import Xahau.Amendment.Voting
import Xahau.Data.Run

/-! # Activation of amendments (`Change.cpp`)

The actions of a vote become transactions of the next ledger. To an amendment the ledger is a small
machine: it is idle, holds a majority since some close time, or is enabled for good. -/

namespace Xahau.Amendment

open List

/-- The amendments entry of the ledger. -/
structure LedgerEntry where
  /-- `sfAmendments`: the enabled amendments. -/
  amendments : List UInt256
  /-- `sfMajorities`. -/
  majorities : Majorities

/-- The flags say that the amendment gained a majority. -/
def gotMajority (flags : UInt32) : Bool := decide (flags &&& tfGotMajority ≠ 0)

/-- The flags say that the amendment lost its majority. -/
def lostMajority (flags : UInt32) : Bool := decide (flags &&& tfLostMajority ≠ 0)

/-- `Change::applyAmendment`. A transaction that fails leaves the entry as it was. -/
def applyAmendment (parentCloseTime : Nat) (amendment : UInt256) (flags : UInt32)
    (entry : LedgerEntry) : Ter × LedgerEntry :=
  if amendment ∈ entry.amendments then (.tefALREADY, entry)
  else if gotMajority flags ∧ lostMajority flags then (.temINVALID_FLAG, entry)
  else
    let found := (entry.majorities.lookup amendment).isSome
    -- the entries of the other amendments are passed through
    let newMajorities := entry.majorities.erase amendment
    if gotMajority flags ∧ found then (.tefALREADY, entry)
    else if found = false ∧ lostMajority flags then (.tefALREADY, entry)
    else if gotMajority flags then
      (.tesSUCCESS, { entry with majorities := newMajorities.insert amendment parentCloseTime })
    else if lostMajority flags then (.tesSUCCESS, { entry with majorities := newMajorities })
    else
      (.tesSUCCESS,
        { amendments := entry.amendments ++ [amendment], majorities := newMajorities })

/-! ## The ledger as seen by an amendment -/

/-- What the ledger says of an amendment. -/
inductive Phase : Type where
  | idle
  /-- A majority was recorded at this close time. -/
  | held (since : Nat)
  | enabled
  deriving DecidableEq, Repr

def LedgerEntry.phase (entry : LedgerEntry) (a : UInt256) : Phase :=
  if a ∈ entry.amendments then .enabled
  else
    match entry.majorities.lookup a with
    | some since => .held since
    | none => .idle

/-- What a transaction with the given flags does to the phase of its amendment. -/
def Phase.act (now : Nat) (flags : UInt32) (phase : Phase) : Phase :=
  match phase, gotMajority flags, lostMajority flags with
  | .idle, true, false => .held now
  | .held _, false, true => .idle
  | .idle, false, false => .enabled
  | .held _, false, false => .enabled
  | phase, _, _ => phase

variable {a : UInt256}

theorem LedgerEntry.phase_of_not_mem {entry : LedgerEntry} (h : a ∉ entry.amendments) :
    entry.phase a = ((entry.majorities.lookup a).map Phase.held).getD .idle := by
  unfold LedgerEntry.phase
  rw [if_neg h]
  cases entry.majorities.lookup a with
  | none => rfl
  | some since => rfl

section

variable (now : Nat) {flags : UInt32} (applied : List (UInt256 × UInt32)) (entry : LedgerEntry)

/-- **The transaction refines the machine of its amendment.** -/
theorem phase_applyAmendment_self (a : UInt256) (flags : UInt32) (entry : LedgerEntry) :
    (applyAmendment now a flags entry).2.phase a = (entry.phase a).act now flags := by
  unfold applyAmendment
  split
  next ha =>
    simp [LedgerEntry.phase, ha, Phase.act]
  rename_i ha
  rw [LedgerEntry.phase_of_not_mem ha]
  cases hlk : entry.majorities.lookup a <;> cases hgot : gotMajority flags <;>
    cases hlost : lostMajority flags <;> simp [LedgerEntry.phase, Phase.act, *]

theorem phase_applyAmendment_of_ne {b : UInt256} (hne : b ≠ a) (flags : UInt32)
    (entry : LedgerEntry) : (applyAmendment now a flags entry).2.phase b = entry.phase b := by
  unfold applyAmendment
  by_cases ha : a ∈ entry.amendments
  · rw [if_pos ha]
  rw [if_neg ha]
  cases hlk : entry.majorities.lookup a <;> cases hgot : gotMajority flags <;>
    cases hlost : lostMajority flags <;>
    simp [LedgerEntry.phase, hne, AList.lookup_insert_ne hne, AList.lookup_erase_ne hne]

/-- The transactions of a ledger, one after another. -/
def applyAll (parentCloseTime : Nat) (applied : List (UInt256 × UInt32)) (entry : LedgerEntry) :
    LedgerEntry :=
  applied.foldl (fun entry p => (applyAmendment parentCloseTime p.1 p.2 entry).2) entry

theorem phase_applyAll_of_not_mem (ha : a ∉ applied.map Prod.fst) :
    (applyAll now applied entry).phase a = entry.phase a := by
  induction applied generalizing entry with
  | nil => rfl
  | cons p applied ih =>
    rw [map_cons, mem_cons, not_or] at ha
    show (applyAll now applied (applyAmendment now p.1 p.2 entry).2).phase a = _
    rw [ih _ ha.2, phase_applyAmendment_of_ne now ha.1]

theorem phase_applyAll_of_mem (hnd : (applied.map Prod.fst).Nodup) (ha : (a, flags) ∈ applied) :
    (applyAll now applied entry).phase a = (entry.phase a).act now flags := by
  induction applied generalizing entry with
  | nil => exact nomatch ha
  | cons p applied ih =>
    rw [map_cons, nodup_cons] at hnd
    show (applyAll now applied (applyAmendment now p.1 p.2 entry).2).phase a = _
    rcases mem_cons.mp ha with rfl | ha
    · rw [phase_applyAll_of_not_mem now applied _ hnd.1, phase_applyAmendment_self]
    have hne : a ≠ p.1 := by
      rintro rfl
      exact hnd.1 (mem_map.mpr ⟨_, ha, rfl⟩)
    rw [ih _ hnd.2 ha, phase_applyAmendment_of_ne now hne]

end

/-! ## Voting ledgers -/

/-- A server's view of a closed ledger and its validations, and the actions of its vote that are
applied. -/
structure VotingLedger where
  rules : Rules
  amendmentMap : AmendmentMap
  valSet : List Validation
  /-- The parent close time of the last closed ledger, at which the vote is taken. -/
  closeTime : Nat
  /-- The parent close time of the ledger that applies the transactions. -/
  parentCloseTime : Nat
  /-- The transactions that are applied, in their order. -/
  applied : List (UInt256 × UInt32)

section

variable (majorityTime : Nat) (entry : LedgerEntry) (ledger : VotingLedger)

/-- The vote of a voting ledger on an entry. -/
def VotingLedger.actions : List (UInt256 × UInt32) :=
  doVoting majorityTime ledger.amendmentMap ledger.rules ledger.closeTime entry.amendments
    entry.majorities ledger.valSet

/-- A voting ledger applies actions of its vote, each once, in any order. -/
def VotingLedger.Step (entry' : LedgerEntry) : Prop :=
  ledger.applied.Subperm (ledger.actions majorityTime entry) ∧
    entry' = applyAll ledger.parentCloseTime ledger.applied entry

end

namespace VotingLedger

variable {majorityTime : Nat} {entry entry' : LedgerEntry} {ledger : VotingLedger} {a : UInt256}

section

variable (h : Step majorityTime entry ledger entry')

include h

theorem Step.nodup : (ledger.applied.map Prod.fst).Nodup := by
  obtain ⟨l, hperm, hsub⟩ := h.1
  exact (hperm.map Prod.fst).nodup_iff.mp (nodup_doVoting.sublist (hsub.map Prod.fst))

/-- **A voting ledger** does nothing to an amendment, or the action voted for. -/
theorem Step.phase_cases (a : UInt256) :
    entry'.phase a = entry.phase a ∨
      ∃ flags, (a, flags) ∈ ledger.applied ∧ (a, flags) ∈ ledger.actions majorityTime entry ∧
        entry'.phase a = (entry.phase a).act ledger.parentCloseTime flags := by
  by_cases ha : a ∈ ledger.applied.map Prod.fst
  · obtain ⟨⟨a', flags⟩, hmem, rfl⟩ := mem_map.mp ha
    refine .inr ⟨flags, hmem, h.1.subset hmem, ?_⟩
    rw [h.2]
    exact phase_applyAll_of_mem _ _ _ h.nodup hmem
  · refine .inl ?_
    rw [h.2]
    exact phase_applyAll_of_not_mem _ _ _ ha

theorem Step.gotMajority_of_held {since : Nat}
    (hbef : entry.phase a ≠ .held since) (haft : entry'.phase a = .held since) :
    (a, tfGotMajority) ∈ ledger.applied ∧ since = ledger.parentCloseTime := by
  rcases h.phase_cases a with hs | ⟨flags, happ, hvot, hact⟩
  · rw [hs] at haft
    exact absurd haft hbef
  rw [haft] at hact
  -- only a gained majority leads to a new phase of this kind
  rcases cases_of_mem_doVoting hvot with rfl | rfl | ⟨rfl, -⟩
  · cases hpha : entry.phase a with
    | idle =>
      rw [hpha] at hact
      exact ⟨happ, Phase.held.inj hact⟩
    | held since' =>
      rw [hpha] at hact hbef
      exact absurd hact.symm hbef
    | enabled =>
      rw [hpha] at hact
      cases hact
  · cases hpha : entry.phase a <;> rw [hpha] at hact <;> cases hact
  · cases hpha : entry.phase a <;> rw [hpha] at hact <;> cases hact

theorem Step.not_lostMajority {since : Nat}
    (hbef : entry.phase a = .held since) (haft : entry'.phase a = .held since) :
    (a, tfLostMajority) ∉ ledger.applied := by
  intro hmem
  have hact := phase_applyAll_of_mem ledger.parentCloseTime _ entry h.nodup hmem
  rw [← h.2, haft, hbef] at hact
  cases hact

theorem Step.held_of_enabled (hbef : a ∉ entry.amendments) (haft : a ∈ entry'.amendments) :
    (a, 0) ∈ ledger.applied ∧
      ∃ since, entry.phase a = .held since ∧ since + majorityTime ≤ ledger.closeTime := by
  have hpha : entry.phase a ≠ .enabled := by
    rw [LedgerEntry.phase_of_not_mem hbef]
    cases entry.majorities.lookup a <;> simp
  have hena : entry'.phase a = .enabled := if_pos haft
  rcases h.phase_cases a with hs | ⟨flags, happ, hvot, hact⟩
  · exact absurd (hs.symm.trans hena) hpha
  rw [hena] at hact
  rcases cases_of_mem_doVoting hvot with rfl | rfl | ⟨rfl, since, hlk, hold⟩
  · cases hpha' : entry.phase a <;> rw [hpha'] at hact hpha <;>
      first | exact absurd rfl hpha | cases hact
  · cases hpha' : entry.phase a <;> rw [hpha'] at hact hpha <;>
      first | exact absurd rfl hpha | cases hact
  refine ⟨happ, since, ?_, hold⟩
  rw [LedgerEntry.phase_of_not_mem hbef, hlk]
  rfl

end

/-- **The holding period.** In every run from no majorities, an amendment is enabled only after a
majority was recorded, not lost since, and as old as the majority time. -/
theorem holdingPeriod {entry₀ : LedgerEntry} (h₀ : entry₀.majorities = ∅)
    {ledgers : List VotingLedger} (hrun : Run (Step majorityTime) entry₀ ledgers entry)
    (hstep : Step majorityTime entry ledger entry') (hbef : a ∉ entry.amendments)
    (haft : a ∈ entry'.amendments) :
    ∃ earlier recording later since, ledgers = earlier ++ recording :: later ∧
      (a, tfGotMajority) ∈ recording.applied ∧ since = recording.parentCloseTime ∧
      (∀ ledger' ∈ later ++ [ledger], (a, tfLostMajority) ∉ ledger'.applied) ∧
      since + majorityTime ≤ ledger.closeTime := by
  obtain ⟨hena, since, hheld, hold⟩ := hstep.held_of_enabled hbef haft
  have hsta : ¬ entry₀.phase a = .held since := by
    unfold LedgerEntry.phase
    rw [h₀, AList.lookup_empty]
    split <;> simp
  -- the ledger that recorded this majority, after which it was never given up
  obtain ⟨earlier, recording, later, t, t', rfl, -, hnot, hrec, hQ, hwit⟩ :=
    hrun.exists_established (fun entry => entry.phase a = .held since) hsta hheld
  obtain ⟨hgot, hsin⟩ := hrec.gotMajority_of_held hnot hQ
  refine ⟨earlier, recording, later, since, rfl, hgot, hsin, ?_, hold⟩
  intro ledger' hmem
  rcases mem_append.mp hmem with hmem | hmem
  · apply hwit.forall_mem (P := fun ledger' => (a, tfLostMajority) ∉ ledger'.applied) _ _ hmem
    rintro u e u' ⟨hstep', hu, hu'⟩
    exact hstep'.not_lostMajority hu hu'
  · rw [mem_singleton.mp hmem]
    intro hlost
    have hfla := inj_on_of_nodup_map hstep.nodup hlost hena rfl
    cases hfla

end VotingLedger

/-! ## Majorities of signers -/

section

variable (valSet : List Validation) (a : UInt256)

def trustedSigners : Finset PublicKey :=
  ((trusted valSet).map Validation.signerPublic).toFinset

/-- The trusted signers that list an amendment, each once. -/
def signersFor : Finset PublicKey :=
  (((trusted valSet).filter fun val => decide (a ∈ val.choices)).map
    Validation.signerPublic).toFinset

/-- More than four fifths of the trusted signers list it, or the only one does. -/
def HasMajority : Prop :=
  4 * (trustedSigners valSet).card < 5 * (signersFor valSet a).card ∨
    ((trustedSigners valSet).card = 1 ∧ signersFor valSet a = trustedSigners valSet)

end

section

variable {valSet : List Validation} (hsigners : (valSet.map Validation.signerPublic).Nodup)
include hsigners

theorem card_trustedSigners : (trustedSigners valSet).card = (trusted valSet).length := by
  rw [trustedSigners, toFinset_card_of_nodup, length_map]
  exact hsigners.sublist (filter_sublist.map _)

theorem card_signersFor (a : UInt256) :
    (signersFor valSet a).card = Tally.listings (ballots valSet) a := by
  rw [signersFor, toFinset_card_of_nodup, length_map, Tally.listings, ballots,
    countP_map, countP_eq_length_filter]
  · rfl
  · exact hsigners.sublist ((filter_sublist.trans filter_sublist).map _)

end

/-- **Activation safety.** A vote that passes has a majority of the trusted signers iff repeated
entries do not make up for missing signers; and amendments are enabled only after the holding
period. -/
theorem activation_safety (majorityTime : Nat) :
    (∀ (rules : Rules) (valSet : List Validation) (a : UInt256),
      rules.enabled .fixAmendmentMajorityCalc = true →
      (valSet.map Validation.signerPublic).Nodup →
      (((AmendmentSet.ofValidations rules valSet).passes a = true → HasMajority valSet a) ↔
        ¬ (5 * (signersFor valSet a).card ≤ 4 * (trustedSigners valSet).card ∧
          4 * (trustedSigners valSet).card <
            5 * ((signersFor valSet a).card + Tally.repeats (ballots valSet) a)))) ∧
    (∀ (entry₀ entry entry' : LedgerEntry) (ledgers : List VotingLedger) (ledger : VotingLedger)
      (a : UInt256), entry₀.majorities = ∅ →
      Run (VotingLedger.Step majorityTime) entry₀ ledgers entry →
      VotingLedger.Step majorityTime entry ledger entry' →
      a ∉ entry.amendments → a ∈ entry'.amendments →
      ∃ earlier recording later since, ledgers = earlier ++ recording :: later ∧
        (a, tfGotMajority) ∈ recording.applied ∧ since = recording.parentCloseTime ∧
        (∀ ledger' ∈ later ++ [ledger], (a, tfLostMajority) ∉ ledger'.applied) ∧
        since + majorityTime ≤ ledger.closeTime) := by
  constructor
  · intro rules valSet a hfix hsigners
    rw [AmendmentSet.passes_iff rules valSet a hfix, HasMajority, card_trustedSigners hsigners,
      card_signersFor hsigners]
    constructor
    · rintro hpass ⟨hmissing, hmade⟩
      rcases hpass hmade with hmajority | ⟨hone, hall⟩
      · omega
      -- the only signer lists it, so none is missing
      have hcard := congrArg Finset.card hall
      rw [card_trustedSigners hsigners, card_signersFor hsigners] at hcard
      omega
    · intro hno hpass
      left
      omega
  · intro entry₀ entry entry' ledgers ledger a h₀ hrun hstep hbefore hafter
    exact VotingLedger.holdingPeriod h₀ hrun hstep hbefore hafter

/-- Validations of five trusted signers with the given ballots. -/
def fiveSigners (ballot : UInt8 → List UInt256) : List Validation :=
  [1, 2, 3, 4, 5].map fun b => ⟨.ofByte b, true, some (ballot b)⟩

def someAmendment : UInt256 := .ofByte 1

/-- A ledger in which five signers list the amendment and a server knows of it. -/
def unanimousLedger (closeTime : Nat) (flags : UInt32) : VotingLedger where
  rules := ⟨fun _ => true⟩
  amendmentMap := AList.singleton someAmendment ⟨.up, true⟩
  valSet := fiveSigners fun _ => [someAmendment]
  closeTime := closeTime
  parentCloseTime := closeTime + 3
  applied := [(someAmendment, flags)]

/-- Five signers have a majority, and the amendment is enabled when it is old enough. -/
theorem activation_safety_unanimous :
    HasMajority (fiveSigners fun _ => [someAmendment]) someAmendment ∧
      ∃ earlier recording later since,
        [unanimousLedger 100 tfGotMajority] = earlier ++ recording :: later ∧
        (someAmendment, tfGotMajority) ∈ recording.applied ∧ since = recording.parentCloseTime ∧
        (∀ ledger' ∈ later ++ [unanimousLedger 113 0],
          (someAmendment, tfLostMajority) ∉ ledger'.applied) ∧
        since + 10 ≤ (unanimousLedger 113 0).closeTime := by
  have hfirst : (unanimousLedger 100 tfGotMajority).actions 10 ⟨[], ∅⟩
      = [(someAmendment, tfGotMajority)] := by decide +kernel
  have hsecond : (unanimousLedger 113 0).actions 10
      (applyAll 103 [(someAmendment, tfGotMajority)] ⟨[], ∅⟩) = [(someAmendment, 0)] := by
    decide +kernel
  constructor
  · refine ((activation_safety 10).1 ⟨fun _ => true⟩ _ someAmendment rfl ?_).mpr ?_ ?_
    · decide +kernel
    · decide +kernel
    · decide +kernel
  refine (activation_safety 10).2 ⟨[], ∅⟩ _ _ _ _ someAmendment rfl
    (Run.nil.snoc ⟨?_, rfl⟩) ⟨?_, rfl⟩ ?_ ?_
  · rw [hfirst]
    exact List.Subperm.refl _
  · exact hsecond ▸ List.Subperm.refl _
  · decide +kernel
  · decide +kernel

/-- **One signer of five passes an amendment** by listing it five times. -/
theorem repeatedBallot_passes :
    let valSet := fiveSigners fun b => if b = 1 then List.replicate 5 someAmendment else []
    (valSet.map Validation.signerPublic).Nodup ∧
      (AmendmentSet.ofValidations ⟨fun _ => true⟩ valSet).passes someAmendment = true ∧
      (signersFor valSet someAmendment).card = 1 ∧ (trustedSigners valSet).card = 5 ∧
      ¬ HasMajority valSet someAmendment := by
  unfold HasMajority
  decide +kernel

end Xahau.Amendment
