import Xahau.Govern.Tally

/-! # The quorum of a first table

On the first table a topic about a seat takes four fifths of the members, and any other topic all of
them. The four fifths are rounded down, so that fewer members reach them unless their number is
divisible by five. -/

namespace Xahau.Govern

open Checked PartialBijection Supporters

/-- The vote is enough, and its topic is actioned in the given states. -/
structure Actions (table : Table) (inv : Invocation) (s : Store) (ballot : Ballot) (s' : Store) :
    Prop where
  invoked : passing table inv = none
  cast : ∃ memberCount, s.readInt countOfMembersKey = some memberCount ∧
    castVote table inv memberCount s = .ok (ballot, s')

section

variable {s s' : Store} {σ : Fin 20 ≃. AccountID} {table : Table} {inv : Invocation} {ballot : Ballot}
  {voted : Set Blob}

theorem Actions.threshold_le (h : Actions table inv s ballot s') (hrec : Recorded s σ voted)
    (htal : Tallied s ballot.topic ballot.data)
    (hdis : Distinguished ballot.topic ballot.data voted)
    (hacc : inv.account = .zero ∨ Plain inv.account) :
    (sitting s').length = size σ ∧ (sitting s).length = size σ ∧
      threshold table (size σ) ballot.topic ≤ (supporters s' ballot.topic ballot.data).length := by
  obtain ⟨memberCount, hcount, hcast⟩ := h.cast
  obtain ⟨hmemb, hbal, votes, hreco, heno⟩ := castVote_eq_ok hcast
  obtain ⟨hlen, -⟩ := readBallot_eq_ok hbal
  obtain ⟨hrec', htal'⟩ := voted_recordVote hrec hacc hmemb hbal hreco
  rw [hrec.seating.readInt_count] at hcount
  cases hcount
  have hins : Distinguished ballot.topic ballot.data (insert ballot.data voted) := by
    rintro hhook data' (rfl | hdata') hdrop
    · rfl
    · exact hdis hhook data' hdata' hdrop
  have hle := hrec'.ncard_support_le ballot.topic ballot.data
  have hsize := size_le_card σ
  rw [Nat.card_fin] at hsize
  refine ⟨hrec'.seating.length_sitting, hrec.seating.length_sitting, ?_⟩
  rw [hrec'.length_supporters, ← recordVote_votes (htal' _ _ hlen hins htal)
    (by omega) hreco]
  exact heno

end

/-- **The quorum of the first table**: over orderly invocations, whenever a seat topic is actioned,
four fifths of the sitting members have a recorded vote for the data, and for another topic all
have. The number of members is divisible by five, or at most two. -/
theorem quorum_runs {table : Table} (hfirst : table.isL1Table = true)
    (hdistinct : ∀ n m acc, table.IsInitial n acc → table.IsInitial m acc → n = m)
    (hplain : ∀ n acc, table.IsInitial n acc → Plain acc) (invs : List Invocation)
    (horderly : AllOrderly table invs) {inv : Invocation} {ballot : Ballot} {s' : Store}
    (haccount : inv.account = .zero ∨ Plain inv.account)
    (hdistinguished : Distinguished ballot.topic ballot.data (votedFor invs))
    (hrounded : ballot.topic.type = .seat →
      5 ∣ (sitting (runs table invs)).length ∨ (sitting (runs table invs)).length ≤ 2)
    (h : Actions table inv (runs table invs) ballot s') :
    (ballot.topic.type = .seat →
      4 * (sitting s').length ≤ 5 * (supporters s' ballot.topic ballot.data).length) ∧
    (ballot.topic.type ≠ .seat → supporters s' ballot.topic ballot.data = sitting s') := by
  rcases voted_runs hplain hdistinct horderly with hempty | ⟨σ, hrecorded, htallied⟩
  · obtain ⟨memberCount, hcount, -⟩ := h.cast
    rw [hempty] at hcount
    cases hcount
  have hlength : ballot.data.length = ballot.topic.type.size := by
    obtain ⟨memberCount, -, hcast⟩ := h.cast
    exact (readBallot_eq_ok (castVote_eq_ok hcast).2.1).1
  obtain ⟨hsitting', hsitting, hthreshold⟩ := h.threshold_le hrecorded
    (htallied _ _ hlength hdistinguished) hdistinguished haccount
  unfold threshold at hthreshold
  rw [if_pos (.inl hfirst)] at hthreshold
  refine ⟨fun hseat => ?_, fun hseat => ?_⟩
  · rw [if_pos hseat] at hthreshold
    rw [hsitting']
    have hwhole := hsitting ▸ hrounded hseat
    unfold q80 at hthreshold
    omega
  · rw [if_neg hseat, ← hsitting'] at hthreshold
    have hall := le_antisymm (List.length_filter_le _ _) hthreshold
    rw [supporters, List.filter_eq_self]
    exact List.length_filter_eq_length_iff.mp hall

theorem actions_of_castVote (table : Table) (inv : Invocation) (s : Store) (memberCount : Nat)
    (P : Ballot → Store → Prop) (hinvo : passing table inv = none)
    (hcount : s.readInt countOfMembersKey = some memberCount)
    (h : ∃ result, castVote table inv memberCount s = .ok result ∧ P result.1 result.2) :
    ∃ ballot s', Actions table inv s ballot s' ∧ P ballot s' := by
  obtain ⟨⟨ballot, s'⟩, hcast, hP⟩ := h
  exact ⟨ballot, s', ⟨hinvo, memberCount, hcount, hcast⟩, hP⟩

/-- One member votes to fill seat 5. -/
def filling : List Invocation :=
  [sampleVote 0 [] none, sampleVote 0 [0x53, 5] (some (sampleMember 9).data)]

/-- Of two members both have voted when the seat is filled. -/
theorem quorum_filling :
    ∃ ballot s', Actions (sampleTable 2) (sampleVote 1 [0x53, 5] (some (sampleMember 9).data))
        (runs (sampleTable 2) filling) ballot s' ∧ ballot.topic.type = .seat ∧
      4 * (sitting s').length ≤ 5 * (supporters s' ballot.topic ballot.data).length := by
  have horderly : AllOrderly (sampleTable 2) filling := by
    refine (AllOrderly.nil.snoc (orderly_of_not_seat ?_ (sampleMember_plain 0) ?_)).snoc
      ⟨?_, .inr (sampleMember_plain 0), ?_⟩
    · intro acc hacc
      cases hacc
    · intro ballot hballot
      cases hballot
    · intro acc hacc
      exact .inr (BaseUInt.ext (Option.some.inj hacc) ▸ sampleMember_plain 9)
    -- seat 5 is empty
    intro ballot acc hunseats
    have hempty : (runs (sampleTable 2) [sampleVote 0 [] none]).read 20 (seatKey 5) = none := by
      decide +kernel
    have hballot := hunseats.cast
    cases hballot
    exact absurd (hempty.symm.trans hunseats.occupied) (Option.some_ne_none _ ∘ Eq.symm)
  obtain ⟨ballot, s', hactions, hseat⟩ := actions_of_castVote (sampleTable 2)
    (sampleVote 1 [0x53, 5] (some (sampleMember 9).data)) (runs (sampleTable 2) filling) 2
    (fun ballot _ => ballot.topic.type = .seat) (by decide) (by decide +kernel) (by decide +kernel)
  refine ⟨ballot, s', hactions, hseat, (quorum_runs rfl (fun _ _ _ => sampleTable_distinct)
    (fun _ _ => sampleTable_plain) filling horderly (.inr (sampleMember_plain 1))
    (fun hhook => ?_) (fun _ => ?_) hactions).1 hseat⟩
  · rw [hseat] at hhook
    cases hhook
  · right
    decide +kernel

/-- Two members vote to fill seat 9. -/
def halfFilled : List Invocation :=
  [sampleVote 0 [] none, sampleVote 0 [0x53, 9] (some (sampleMember 9).data),
    sampleVote 1 [0x53, 9] (some (sampleMember 9).data)]

/-- Three of four members fill a seat. And one of two members changes the rate alone after another
who voted for it was removed. -/
theorem actioned_without_quorum :
    (∃ ballot s', Actions (sampleTable 4) (sampleVote 2 [0x53, 9] (some (sampleMember 9).data))
        (runs (sampleTable 4) halfFilled) ballot s' ∧
      ballot.topic.type = .seat ∧
      5 * (supporters s' ballot.topic ballot.data).length < 4 * (sitting s').length) ∧
    ∃ ballot s', Actions (sampleTable 3) (sampleVote 1 [0x52, 0x52] (some (List.replicate 8 7)))
        (runs (sampleTable 3) removing) ballot s' ∧
      ballot.topic.type = .reward ∧ sitting s' = [sampleMember 1, sampleMember 2] ∧
      supporters s' ballot.topic ballot.data = [sampleMember 1] := by
  constructor
  · exact actions_of_castVote _ _ (runs (sampleTable 4) halfFilled) 4
      (fun ballot s' => ballot.topic.type = .seat ∧
        5 * (supporters s' ballot.topic ballot.data).length < 4 * (sitting s').length)
      (by decide) (by decide +kernel) (by decide +kernel)
  · exact actions_of_castVote _ _ (runs (sampleTable 3) removing) 2
      (fun ballot s' => ballot.topic.type = .reward ∧ sitting s' = [sampleMember 1, sampleMember 2] ∧
        supporters s' ballot.topic ballot.data = [sampleMember 1])
      (by decide) (by decide +kernel) (by decide +kernel)

end Xahau.Govern
