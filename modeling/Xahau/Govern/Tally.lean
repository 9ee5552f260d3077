import Xahau.Govern.Votes

/-! # The counters of votes over runs

What the counters of a table say, and with how many votes topics are actioned, over every sequence
of invocations. The votes of a member who is removed stay, and four fifths are rounded down. -/

namespace Xahau.Govern

open Checked PartialBijection Supporters

/-! ## Orderly invocations -/

/-- The vote makes up the number with which a member is taken from their seat. -/
structure Unseats (table : Table) (inv : Invocation) (s : Store) (ballot : Ballot)
    (acc : AccountID) : Prop where
  cast : readBallot table inv = .ok ballot
  seat : ballot.topic.type = .seat
  here : ¬ (ballot.topic.l = 1 ∧ table.isL1Table = false)
  enough : ∃ memberCount, s.readInt countOfMembersKey = some memberCount ∧
    threshold table memberCount ballot.topic ≤ storedCount s ballot.topic ballot.data + 1
  occupied : s.read 20 (seatKey ballot.topic.n) = some acc.data
  other : ballot.data ≠ acc.data

/-- No account identifier is the key of something else, and a removed member has not voted. -/
structure Orderly (table : Table) (inv : Invocation) (s : Store) : Prop where
  votes : inv.VotesPlain
  account : inv.account = .zero ∨ Plain inv.account
  removed : ∀ ballot acc, Unseats table inv s ballot acc →
    acc ≠ inv.account ∧ ∀ topic, s (voteKey topic acc) = none

section

variable {s s' s₁ : Store} {σ σ' : Fin 20 ≃. AccountID} {acc : AccountID} {data : Blob} {topic : Topic}
  {table : Table} {inv : Invocation} {ballot : Ballot} {votes : UInt8} {voted : Set Blob}

theorem recordVote_votes_le (h : Recorded s σ voted)
    (hlen : ballot.data.length = ballot.topic.type.size) (hseat : ballot.topic.type = .seat)
    (hs : recordVote s acc ballot = .ok (s', votes)) :
    votes.toNat ≤ storedCount s ballot.topic ballot.data + 1 := by
  obtain ⟨hnew, s₁, hwit, hcount⟩ := recordVote_eq_ok hs
  rw [h.read_vote] at hnew hwit
  have hset : s.set (voteKey ballot.topic acc) ballot.data (countKey ballot.topic ballot.topicData) =
      s (countKey ballot.topic ballot.topicData) :=
    Store.set_of_ne (ne_of_head (head_countKey ..) (head_voteKey ..) (by decide))
  have hsame : s₁ (countKey ballot.topic ballot.topicData) =
      s (countKey ballot.topic ballot.topicData) := by
    rcases withdraw_cases hwit with ⟨-, rfl⟩ | ⟨previous, _, hpre, -, rfl⟩
    · exact hset
    -- the previous vote was for something else, and has another counter
    rw [Store.set_of_ne, hset]
    intro hkey
    have hinj := countKey_buffer_inj hlen (h.length _ _ _ hpre) fun hhook => by
      rw [hseat] at hhook
      cases hhook
    rw [hinj.mp hkey.symm] at hpre
    exact hnew hpre
  have hread : s₁.read 1 (countKey ballot.topic ballot.topicData) =
      s.read 1 (countKey ballot.topic ballot.topicData) := by
    unfold Store.read
    rw [hsame]
  cases hcount
  rw [hread, UInt8.toNat_add]
  exact Nat.mod_le _ _

namespace Recorded

section

variable (h : Recorded s σ voted)

include h

theorem mono {voted' : Set Blob} (hsub : voted ⊆ voted') : Recorded s σ voted' :=
  ⟨h.seating, h.sits, h.length, h.layer, fun topic acc data hvote => hsub (h.voted topic acc data hvote)⟩

theorem of_sameVotes (hsea : Seating s' σ' (size σ')) (hs : SameVotes s s')
    (hsits : ∀ topic acc data, s (voteKey topic acc) = some data → σ'.symm acc ≠ none) :
    Recorded s' σ' voted where
  seating := hsea
  sits topic acc data hvote := hsits topic acc data (hs.vote topic acc ▸ hvote)
  length topic acc data hvote := h.length topic acc data (hs.vote topic acc ▸ hvote)
  layer topic acc data hvote := h.layer topic acc data (hs.vote topic acc ▸ hvote)
  voted topic acc data hvote := h.voted topic acc data (hs.vote topic acc ▸ hvote)

theorem collectedKey_eq_none (acc : AccountID) (i : Nat) : s (collectedKey acc i) = none := by
  have htype : ∃ t : TopicType, t.code = (collectedTopic i).1 := by
    unfold collectedTopic
    split
    · exact ⟨.reward, rfl⟩
    split
    · exact ⟨.hook, rfl⟩
    · exact ⟨.seat, rfl⟩
  obtain ⟨t, ht⟩ := htype
  have hkey : collectedKey acc i = voteKey ⟨t, (collectedTopic i).2, 0⟩ acc := by
    refine BaseUInt.ext ?_
    unfold collectedKey voteKey
    rw [ht]
  rw [hkey]
  cases hvote : s (voteKey ⟨t, (collectedTopic i).2, 0⟩ acc) with
  | none => rfl
  | some data => exact absurd rfl (h.layer _ acc data hvote)

theorem sits_of_reseats {n : Fin 20} (hres : Reseats σ n acc σ')
    (hrem : ∀ acc', σ n = some acc' → acc' ≠ acc → ∀ topic, s (voteKey topic acc') = none)
    (topic : Topic) (acc' : AccountID) (data : Blob) (hvote : s (voteKey topic acc') = some data) :
    σ'.symm acc' ≠ none := by
  obtain ⟨m, hm⟩ := Option.ne_none_iff_exists'.mp (h.sits topic acc' data hvote)
  rw [σ.eq_some_iff] at hm
  -- the seat that they have afterwards
  suffices hseat : ∃ m', σ' m' = some acc' by
    obtain ⟨m', hm'⟩ := hseat
    rw [σ'.eq_some_iff.mpr hm']
    exact nofun
  by_cases hacc : acc' = acc
  · have hzero : acc ≠ .zero := by
      rintro rfl
      exact not_plain_zero (hacc ▸ h.seating.plain m acc' hm)
    exact ⟨n, by rw [hres.here, if_neg hzero, hacc]⟩
  by_cases hmn : m = n
  · subst hmn
    rw [hrem acc' hm hacc topic] at hvote
    cases hvote
  · refine ⟨m, ?_⟩
    rw [hres.elsewhere m hmn, hm, if_neg]
    exact hacc ∘ Option.some.inj

end

end Recorded

/-- Values that the keys of the counters tell apart: the last 28 bytes of a hook hash. -/
def Distinguished (topic : Topic) (data : Blob) (voted : Set Blob) : Prop :=
  topic.type = .hook → ∀ data' ∈ voted, data'.drop 4 = data.drop 4 → data' = data

theorem voted_recordVote (h : Recorded s σ voted) (hacc : inv.account = .zero ∨ Plain inv.account)
    (hmemb : s.readInt (memberKey inv.account.data) ≠ none)
    (hbal : readBallot table inv = .ok ballot)
    (hs : recordVote s inv.account ballot = .ok (s', votes)) :
    Recorded s' σ (insert ballot.data voted) ∧
      ∀ topic data, data.length = topic.type.size →
        Distinguished topic data (insert ballot.data voted) → Tallied s topic data →
        Tallied s' topic data := by
  obtain ⟨hlen, -⟩ := readBallot_eq_ok hbal
  have hdata : ballot.data ≠ [] := by
    intro hnil
    rw [hnil] at hlen
    cases htype : ballot.topic.type <;> rw [htype] at hlen <;> cases hlen
  have hsits : σ.symm inv.account ≠ none := by
    rw [h.seating.readInt_member hacc, Ne, Option.map_eq_none_iff] at hmemb
    exact hmemb
  exact ⟨h.recordVote hsits hbal hs, fun topic data hlen' hdis htal =>
    htal.recordVote h hlen' hdis hlen hdata hs⟩

/-- **An invocation keeps the counters**: what is recorded afterwards, and that a right counter
stays right. -/
theorem voted_run (h : Recorded s σ voted) (hord : Orderly table inv s) :
    ∃ σ', Recorded (run table inv s) σ' { data | data ∈ voted ∨ inv.vote = some data } ∧
      ∀ topic data, data.length = topic.type.size →
        Distinguished topic data { data | data ∈ voted ∨ inv.vote = some data } →
        Tallied s topic data → Tallied (run table inv s) topic data := by
  have hout := outcome_run table inv s
  generalize run table inv s = s' at hout ⊢
  have hins : ∀ {ballot}, readBallot table inv = .ok ballot →
      { data | data ∈ voted ∨ inv.vote = some data } = insert ballot.data voted := by
    intro ballot hbal
    obtain ⟨-, hvote, -⟩ := readBallot_eq_ok hbal
    ext data
    rw [hvote]
    simp [or_comm, eq_comm]
  cases hout with
  | unchanged => exact ⟨σ, h.mono fun _ => .inl, fun _ _ _ _ htal => htal⟩
  | setup hnone _ =>
    rw [h.seating.readInt_count] at hnone
    cases hnone
  | voted hmemb hbal hreco =>
    rw [hins hbal]
    exact ⟨σ, voted_recordVote h hord.account hmemb hbal hreco⟩
  | rewarded hcast htype =>
    rename_i memberCount ballot s₁
    obtain ⟨hmemb, hbal, votes, hreco, -⟩ := castVote_eq_ok hcast
    obtain ⟨hrec, htal⟩ := voted_recordVote h hord.account hmemb hbal hreco
    have hsame : SameVotes s₁ (s₁.set (leftPad [0x52, ballot.topic.n]) ballot.data) :=
      SameVotes.refl.set (head_leftPad (by simp))
    rw [hins hbal]
    refine ⟨σ, hrec.of_sameVotes (hrec.seating.actionReward hbal htype) hsame
      hrec.sits, fun topic data hlen hdis hs => ?_⟩
    exact (htal topic data hlen hdis hs).of_sameVotes hsame
  | seated hcount hcast hhere htype hseat =>
    rename_i memberCount ballot exit s₁
    obtain ⟨hmemb, hbal, votes, hreco, heno⟩ := castVote_eq_ok hcast
    obtain ⟨hrec, htal⟩ := voted_recordVote h hord.account hmemb hbal hreco
    obtain ⟨n, acc, hn, hdata, hvote⟩ := exists_of_seat hbal htype
    obtain ⟨hlen, -⟩ := readBallot_eq_ok hbal
    have hsize := hcount
    rw [h.seating.readInt_count] at hsize
    cases hsize
    obtain ⟨σ', hres, hsea⟩ := hrec.seating.actionSeat htype hn hdata
      (hord.votes acc hvote) hseat s
    have hsame : SameVotes s₁ (exit.after s) := by
      refine sameVotes_actionSeat ?_ hrec.collectedKey_eq_none hseat s
      rw [hdata, acc.data_length]
    -- a member who is removed had not voted, and is not the one who votes now
    have hrem : ∀ acc', σ n = some acc' → acc' ≠ acc → ∀ topic, s₁ (voteKey topic acc') = none := by
      intro acc' hacc' hne topic
      have huns : Unseats table inv s ballot acc' := by
        refine ⟨hbal, htype, hhere, ⟨_, hcount, ?_⟩, ?_, ?_⟩
        · exact heno.trans (recordVote_votes_le h hlen htype hreco)
        · rw [hn, h.seating.read_seat n, hacc']
          rfl
        · rw [hdata]
          exact fun heq => hne (BaseUInt.ext heq.symm)
      obtain ⟨hoth, hnone⟩ := hord.removed ballot acc' huns
      rw [recordVote_voteKey _ hreco, if_neg (hoth ∘ And.right), hnone topic]
      rw [hdata]
      intro hnil
      exact absurd (hnil ▸ acc.data_length) (by decide)
    rw [hins hbal]
    refine ⟨σ', hrec.of_sameVotes hsea hsame (hrec.sits_of_reseats hres hrem),
      fun topic data hlen' hdis hs => ?_⟩
    exact (htal topic data hlen' hdis hs).of_sameVotes hsame

/-! ## Runs -/

theorem recorded_setup {exit : Exit} (hpla : ∀ n acc, table.IsInitial n acc → Plain acc)
    (hdist : ∀ n m acc, table.IsInitial n acc → table.IsInitial m acc → n = m)
    (h : setup table (fun _ => none) = .ok exit) :
    ∃ σ, Recorded (exit.after fun _ => none) σ ∅ ∧
      ∀ topic data, Tallied (exit.after fun _ => none) topic data := by
  obtain ⟨σ, hσ⟩ := seating_setup hpla hdist h
  have hs := sameVotes_setup h fun _ => none
  have hn : ∀ topic acc, (exit.after fun _ => none) (voteKey topic acc) = none :=
    fun topic acc => hs.vote topic acc
  refine ⟨σ, ⟨hσ, ?_, ?_, ?_, ?_⟩, fun topic data => ?_⟩
  iterate 4
    intro topic acc data hvote
    rw [hn] at hvote
    cases hvote
  · unfold Tallied
    rw [hs.counter]
    have hemp : support (fun acc => (exit.after fun _ => none) (voteKey topic acc)) data = ∅ := by
      ext acc
      simp [support, hn]
    rw [hemp, Set.ncard_empty]
    rfl

/-- The invocations of a run are orderly, each in the states in which it is made. -/
def AllOrderly (table : Table) (invs : List Invocation) : Prop :=
  ∀ before inv after, invs = before ++ inv :: after → Orderly table inv (runs table before)

theorem AllOrderly.nil : AllOrderly table [] := by
  intro before inv after h
  simp at h

variable {invs : List Invocation}

theorem AllOrderly.snoc (h : AllOrderly table invs)
    (hinv : Orderly table inv (runs table invs)) : AllOrderly table (invs ++ [inv]) := by
  intro before inv' after heq
  rcases List.eq_nil_or_concat after with rfl | ⟨after', last, rfl⟩
  · obtain ⟨rfl, hlast⟩ := List.append_inj' heq rfl
    cases hlast
    exact hinv
  · rw [List.concat_eq_append, ← List.cons_append, ← List.append_assoc] at heq
    obtain ⟨rfl, -⟩ := List.append_inj' heq rfl
    exact h before inv' after' rfl

/-- What has been voted for. -/
def votedFor (invs : List Invocation) : Set Blob := { data | ∃ inv ∈ invs, inv.vote = some data }

/-- **The counters over runs**: there are no states, or all is well formed and the counters are
right. -/
theorem voted_runs (hpla : ∀ n acc, table.IsInitial n acc → Plain acc)
    (hdist : ∀ n m acc, table.IsInitial n acc → table.IsInitial m acc → n = m)
    (hord : AllOrderly table invs) :
    runs table invs = (fun _ => none) ∨
      ∃ σ, Recorded (runs table invs) σ (votedFor invs) ∧
        ∀ topic data, data.length = topic.type.size → Distinguished topic data (votedFor invs) →
          Tallied (runs table invs) topic data := by
  induction invs using List.reverseRecOn with
  | nil => exact .inl rfl
  | append_singleton invs inv ih =>
    have hlast : runs table (invs ++ [inv]) = run table inv (runs table invs) := List.foldl_concat ..
    have hvot : votedFor (invs ++ [inv]) =
        { data | data ∈ votedFor invs ∨ inv.vote = some data } := by
      ext data
      simp [votedFor, or_and_right, exists_or]
    rw [hlast]
    have hbef : AllOrderly table invs := by
      rintro before inv' after rfl
      exact hord before inv' (after ++ [inv]) (by simp)
    rcases ih hbef with hemp | ⟨σ, hrec, htal⟩
    · rw [hemp]
      rcases run_empty table inv with hrun | ⟨exit, hset, hrun⟩
      · exact .inl hrun
      rw [hrun]
      obtain ⟨σ, hσ, hs⟩ := recorded_setup hpla hdist hset
      exact .inr ⟨σ, hσ.mono (Set.empty_subset _), fun topic data _ _ => hs topic data⟩
    · obtain ⟨σ', hσ', hs⟩ := voted_run hrec (hord invs inv [] rfl)
      rw [hvot]
      refine .inr ⟨σ', hσ', fun topic data hlen hdis => ?_⟩
      refine hs topic data hlen hdis (htal topic data hlen ?_)
      exact fun hhook data' hdata' => hdis hhook data' (.inl hdata')

end

/-- **The tally of votes**: over orderly invocations, the stored count of a topic and its data is
the number of sitting members whose recorded vote it is. Hook hashes count by their last 28 bytes.
-/
theorem storedCount_runs {table : Table}
    (hdistinct : ∀ n m acc, table.IsInitial n acc → table.IsInitial m acc → n = m)
    (hplain : ∀ n acc, table.IsInitial n acc → Plain acc) (invs : List Invocation)
    (horderly : AllOrderly table invs) (topic : Topic) (data : Blob)
    (hlength : data.length = topic.type.size)
    (hdistinguished : Distinguished topic data (votedFor invs)) :
    storedCount (runs table invs) topic data = (supporters (runs table invs) topic data).length := by
  rcases voted_runs hplain hdistinct horderly with hempty | ⟨σ, hrecorded, htallied⟩
  · rw [hempty]
    rfl
  have hle := hrecorded.ncard_support_le topic data
  have hsize := size_le_card σ
  rw [Nat.card_fin] at hsize
  rw [hrecorded.length_supporters, (htallied topic data hlength hdistinguished).storedCount_eq]
  omega

theorem orderly_of_not_seat {table : Table} {inv : Invocation} {s : Store} (hvot : inv.VotesPlain)
    (hacc : Plain inv.account)
    (hseat : ∀ ballot, readBallot table inv = .ok ballot → ballot.topic.type ≠ .seat) :
    Orderly table inv s :=
  ⟨hvot, .inr hacc, fun ballot _ h => absurd h.seat (hseat ballot h.cast)⟩

/-- A member votes for a reward rate. -/
def rating : List Invocation :=
  [sampleVote 0 [] none, sampleVote 0 [0x52, 0x52] (some (List.replicate 8 7))]

/-- The vote is counted. -/
theorem storedCount_rating :
    storedCount (runs (sampleTable 3) rating) ⟨.reward, 0x52, 1⟩ (List.replicate 8 7) =
      (supporters (runs (sampleTable 3) rating) ⟨.reward, 0x52, 1⟩ (List.replicate 8 7)).length := by
  have hplain : Plain (sampleMember 0) := sampleMember_plain 0
  refine storedCount_runs (fun _ _ _ => sampleTable_distinct) (fun _ _ => sampleTable_plain) rating
    ((AllOrderly.nil.snoc (orderly_of_not_seat ?_ hplain ?_)).snoc
      (orderly_of_not_seat ?_ hplain ?_)) _ _ rfl nofun
  · intro acc hacc
    cases hacc
  · intro ballot hballot
    cases hballot
  · intro acc hacc
    exact absurd ((congrArg List.length (Option.some.inj hacc)).trans acc.data_length) (by decide)
  intro ballot hballot
  cases hballot
  decide

/-- A member votes for a reward rate, and the two others remove them. -/
def removing : List Invocation :=
  rating ++ [sampleVote 1 [0x53, 0] (some (List.replicate 20 0)),
    sampleVote 2 [0x53, 0] (some (List.replicate 20 0))]

/-- The vote of the removed member is still counted. -/
theorem removed_vote_counted :
    (∀ n m acc, (sampleTable 3).IsInitial n acc → (sampleTable 3).IsInitial m acc → n = m) ∧
    storedCount (runs (sampleTable 3) removing) ⟨.reward, 0x52, 1⟩ (List.replicate 8 7) = 1 ∧
    supporters (runs (sampleTable 3) removing) ⟨.reward, 0x52, 1⟩ (List.replicate 8 7) = [] ∧
    sitting (runs (sampleTable 3) removing) = [sampleMember 1, sampleMember 2] := by
  refine ⟨fun _ _ _ => sampleTable_distinct, ?_⟩
  decide +kernel

end Xahau.Govern
