import Xahau.Govern.Table

/-! # What an invocation of the governance hook does

The keys of votes and of their counters start with a letter, and the other keys with zeros. An
invocation records a vote, and if there are enough of them it writes the entries of the table. -/

namespace Xahau.Govern

open Checked List TopicType

section

variable {s s' : Store} {key key' : UInt256} {data : Blob} {topic topic' : Topic}
  {acc acc' : AccountID} {table : Table} {inv : Invocation} {ballot : Ballot} {votes : UInt8}
  {memberCount : Nat}

/-! ## Keys -/

theorem leftPad_data (h : data.length ≤ 32) :
    (leftPad data).data = List.replicate (32 - data.length) 0 ++ data := by
  show List.replicate (32 - (data.take 32).length) 0 ++ data.take 32 = _
  rw [take_of_length_le h]

theorem head_leftPad (h : data.length < 32) : (leftPad data).data.head? = some 0 := by
  rw [leftPad_data h.le, List.head?_append, List.head?_replicate, if_neg (by omega)]
  rfl

variable {data' : Blob} {P : Exit → Prop} {s₁ : Store} {b : UInt8}

theorem leftPad_injective (h : data.length ≤ 32) (hlen : data.length = data'.length)
    (heq : leftPad data = leftPad data') : data = data' := by
  have hdata := congrArg BaseUInt.data heq
  rw [leftPad_data h, leftPad_data (hlen ▸ h), hlen] at hdata
  exact append_cancel_left hdata

theorem seatKey_injective {n n' : UInt8} (h : seatKey n = seatKey n') : n = n' :=
  singleton_inj.mp (leftPad_injective (by simp) rfl h)

theorem memberKey_injective (h : memberKey acc.data = memberKey acc'.data) : acc = acc' := by
  refine BaseUInt.ext (leftPad_injective ?_ ?_ h)
  · rw [acc.data_length]
    decide
  · rw [acc.data_length, acc'.data_length]

theorem head_seatKey (n : UInt8) : (seatKey n).data.head? = some 0 := head_leftPad (by simp)

theorem head_memberKey (acc : AccountID) : (memberKey acc.data).data.head? = some 0 := by
  refine head_leftPad ?_
  rw [acc.data_length]
  decide

theorem head_countOfMembersKey : countOfMembersKey.data.head? = some 0 := head_leftPad (by decide)

theorem head_voteKey (topic : Topic) (acc : AccountID) :
    (voteKey topic acc).data.head? = some 0x56 := rfl

theorem head_countKey (topic : Topic) (topicData : UInt256) :
    (countKey topic topicData).data.head? = some 0x43 := rfl

theorem ne_of_head {b' : UInt8} (h : key.data.head? = some b) (h' : key'.data.head? = some b')
    (hne : b ≠ b') : key ≠ key' := by
  rintro rfl
  rw [h] at h'
  exact hne (Option.some.inj h')

theorem TopicType.code_injective : Function.Injective code := by
  intro t t' h
  cases t <;> cases t' <;> first | rfl | exact absurd h (by decide)

theorem voteKey_inj : voteKey topic acc = voteKey topic' acc' ↔ topic = topic' ∧ acc = acc' := by
  constructor
  · intro h
    have hdata := congrArg BaseUInt.data h
    simp only [voteKey, cons_append, nil_append, List.cons.injEq, true_and] at hdata
    obtain ⟨htype, hn, hl, hacc⟩ := hdata
    refine ⟨?_, BaseUInt.ext (append_cancel_left hacc)⟩
    cases topic
    cases topic'
    simp only [Topic.mk.injEq]
    exact ⟨code_injective htype, hn, hl⟩
  · rintro ⟨rfl, rfl⟩
    rfl

theorem countKey_inj {topicData topicData' : UInt256} :
    countKey topic topicData = countKey topic' topicData' ↔
      topic = topic' ∧ topicData.data.drop 4 = topicData'.data.drop 4 := by
  constructor
  · intro h
    have hdata := congrArg BaseUInt.data h
    simp only [countKey, cons_append, nil_append, List.cons.injEq, true_and] at hdata
    obtain ⟨htype, hn, hl, hrest⟩ := hdata
    refine ⟨?_, hrest⟩
    cases topic
    cases topic'
    simp only [Topic.mk.injEq]
    exact ⟨code_injective htype, hn, hl⟩
  · rintro ⟨rfl, hrest⟩
    unfold countKey
    simp only [hrest]

theorem leftPad_cons_zero (data : Blob) (h : data.length < 32) : leftPad (0 :: data) = leftPad data := by
  have hcons : (0 :: data).length ≤ 32 := h
  refine BaseUInt.ext ?_
  rw [leftPad_data h.le, leftPad_data hcons, length_cons]
  obtain ⟨k, hk⟩ : ∃ k, 32 - data.length = k + 1 := ⟨31 - data.length, by omega⟩
  rw [hk, show 32 - (data.length + 1) = k by omega, replicate_succ', append_assoc]
  rfl

theorem buffer_data {t : TopicType} (h : data.length = t.size) :
    (t.buffer data).data = List.replicate (32 - t.size) 0 ++ data := by
  have hsize : t.size ≤ 32 := by cases t <;> decide
  unfold buffer
  dsimp only
  rw [take_append_of_le_length, take_of_length_le]
  · rw [length_append, length_replicate]
    omega
  · rw [length_append, length_replicate]
    omega

theorem countKey_buffer_inj (h : data.length = topic.type.size)
    (h' : data'.length = topic.type.size)
    (hhook : topic.type = .hook → data'.drop 4 = data.drop 4 → data' = data) :
    countKey topic (topic.type.buffer data') = countKey topic (topic.type.buffer data) ↔
      data' = data := by
  rw [countKey_inj, buffer_data h, buffer_data h']
  constructor
  · rintro ⟨-, hdrop⟩
    cases htype : topic.type with
    | seat =>
      rw [htype] at hdrop
      exact append_cancel_left hdrop
    | hook =>
      rw [htype] at hdrop
      exact hhook htype hdrop
    | reward =>
      rw [htype] at hdrop
      exact append_cancel_left hdrop
  · rintro rfl
    exact ⟨rfl, rfl⟩

theorem buffer_eq_zero : seat.buffer acc.data = .zero ↔ acc = .zero := by
  constructor
  · intro h
    have hdata := congrArg BaseUInt.data h
    rw [buffer_data acc.data_length] at hdata
    exact BaseUInt.ext (append_cancel_left hdata)
  · rintro rfl
    rfl

/-! ## Entries -/

theorem Store.set_self : s.set key data key = if data = [] then none else some data :=
  Function.update_self ..

theorem Store.set_of_ne (h : key' ≠ key) : s.set key data key' = s key' := Function.update_of_ne h ..

/-- The entries of the table stay, those of votes and counters apart. -/
def SameTable (s s' : Store) : Prop := ∀ key : UInt256, key.data.head? = some 0 → s' key = s key

theorem SameTable.refl : SameTable s s := fun _ _ => rfl

theorem SameTable.trans (h : SameTable s s₁) (h' : SameTable s₁ s') : SameTable s s' :=
  fun key hkey => (h' key hkey).trans (h key hkey)

theorem SameTable.set (h : key.data.head? = some b) (hb : b ≠ 0) : SameTable s (s.set key data) :=
  fun _ hkey' => Store.set_of_ne (ne_of_head hkey' h hb.symm)

theorem dataAsInt64_singleton (b : UInt8) : dataAsInt64 [b] = some b.toNat := by
  have hlt : b.toNat < 2 ^ 63 := b.toNat_lt.trans (by decide)
  unfold dataAsInt64
  simp only [foldl_cons, foldl_nil, Nat.zero_mul, Nat.zero_add]
  rw [if_neg]
  rintro (hlen | hle)
  · exact absurd hlen (by simp)
  · exact absurd hle (Nat.not_le.mpr hlt)

/-! ## Votes -/

theorem withdraw_cases {previous : Option Blob} (h : withdraw topic previous s = .ok s') :
    (previous = none ∧ s' = s) ∨ ∃ data v, previous = some data ∧
      s.read 1 (countKey topic (topic.type.buffer data)) = some [v] ∧
      s' = s.set (countKey topic (topic.type.buffer data)) (if v - 1 = 0 then [] else [v - 1]) := by
  unfold withdraw at h
  split at h
  · cases h
    exact .inl ⟨rfl, rfl⟩
  rename_i data
  dsimp only at h
  split at h
  next v hread =>
    unfold assert at h
    simp only [bind_eq_ok, failIf_eq_ok, not_not] at h
    obtain ⟨_, -, h⟩ := h
    cases h
    exact .inr ⟨data, v, rfl, hread, rfl⟩
  · cases h

/-- **Recording a vote**: the counter of the former vote goes down, that of the new one up. -/
theorem recordVote_eq_ok (h : recordVote s acc ballot = .ok (s', votes)) :
    s.read ballot.topic.type.size (voteKey ballot.topic acc) ≠ some ballot.data ∧
      ∃ s₁, withdraw ballot.topic (s.read ballot.topic.type.size (voteKey ballot.topic acc))
          (s.set (voteKey ballot.topic acc) ballot.data) = .ok s₁ ∧
        count ballot s₁ = (s', votes) := by
  unfold recordVote at h
  simp only [bind_eq_ok, failIf_eq_ok] at h
  obtain ⟨_, hnew, s₁, hwit, h⟩ := h
  exact ⟨hnew, s₁, hwit, Except.ok.inj h⟩

theorem sameTable_recordVote (h : recordVote s acc ballot = .ok (s', votes)) : SameTable s s' := by
  obtain ⟨-, s₁, hwit, hcount⟩ := recordVote_eq_ok h
  cases hcount
  have hvote : SameTable s (s.set (voteKey ballot.topic acc) ballot.data) :=
    .set (head_voteKey ..) (by decide)
  refine SameTable.trans ?_ (.set (head_countKey ..) (by decide))
  rcases withdraw_cases hwit with ⟨-, rfl⟩ | ⟨_, _, -, -, rfl⟩
  · exact hvote
  · exact hvote.trans (.set (head_countKey ..) (by decide))

/-- **To action a topic** a member has voted, and there are enough votes. -/
theorem castVote_eq_ok (h : castVote table inv memberCount s = .ok (ballot, s')) :
    s.readInt (memberKey inv.account.data) ≠ none ∧ readBallot table inv = .ok ballot ∧
      ∃ votes, recordVote s inv.account ballot = .ok (s', votes) ∧
        threshold table memberCount ballot.topic ≤ votes.toNat := by
  unfold castVote at h
  simp only [bind_eq_ok, failIf_eq_ok] at h
  obtain ⟨_, hmemb, ballot', hbal, ⟨s₁, votes⟩, hrec, _, hvot, h⟩ := h
  cases h
  exact ⟨hmemb, hbal, votes, hrec, Nat.not_lt.mp hvot⟩

theorem readBallot_eq_ok (h : readBallot table inv = .ok ballot) :
    ballot.data.length = ballot.topic.type.size ∧ inv.vote = some ballot.data ∧
      (ballot.topic.type = .seat → ballot.topic.n ≤ 19) ∧
      (ballot.topic.type = .reward → ballot.topic.n = 0x52 ∨ ballot.topic.n = 0x44) ∧
      (ballot.topic.l = 1 ∨ ballot.topic.l = 2) := by
  unfold readBallot at h
  split at h
  next t n htop =>
    split at h
    · cases h
    rename_i type htype
    simp only [bind_eq_ok, failIf_eq_ok, not_not] at h
    obtain ⟨_, hseat, _, -, _, hrew, l, hlay, _, -, _, hlen, h⟩ := h
    cases h
    have hvote : inv.vote = some (inv.vote.getD []) := by
      cases hpar : inv.vote with
      | none =>
        rw [hpar] at hlen
        cases type <;> cases hlen
      | some data => rfl
    refine ⟨hlen, hvote, fun hs => ?_, fun hr => ?_, ?_⟩
    · exact UInt8.not_lt.mp fun hlt => hseat ⟨hs, hlt⟩
    · by_contra hnot
      exact hrew ⟨hr, fun h => hnot (.inl h), fun h => hnot (.inr h)⟩
    unfold readLayer at hlay
    split at hlay
    · cases hlay
      exact .inl rfl
    split at hlay
    next l' _ =>
      simp only [bind_eq_ok, failIf_eq_ok] at hlay
      obtain ⟨_, hl, hlay⟩ := hlay
      cases hlay
      by_contra hnot
      exact hl ⟨fun h => hnot (.inl h), fun h => hnot (.inr h)⟩
    · cases hlay
  · cases h

/-! ## Removed members -/

section

variable (previousMember : AccountID)

theorem sameTable_collectVote (s : Store) (i : Nat) :
    SameTable s (collectVote previousMember s i) := by
  unfold collectVote
  split
  · exact .refl
  rename_i data _
  split
  next hlen =>
    refine SameTable.trans ?_ (.set (b := 0x56) rfl (by decide))
    split
    · exact .set (b := 0x43) rfl (by decide)
    · exact .refl
  · exact .refl

theorem sameTable_collectVotes (s : Store) : SameTable s (collectVotes previousMember s) := by
  unfold collectVotes
  generalize List.range' 1 31 = rounds
  induction rounds generalizing s with
  | nil => exact .refl
  | cons i rounds ih => exact (sameTable_collectVote previousMember s i).trans (ih _)

theorem collectVotes_eq (h : ∀ i, s (collectedKey previousMember i) = none) :
    collectVotes previousMember s = s := by
  unfold collectVotes
  generalize List.range' 1 31 = rounds
  induction rounds with
  | nil => rfl
  | cons i rounds ih =>
    have hrou : collectVote previousMember s i = s := by
      unfold collectVote Store.read
      rw [h i]
      rfl
    rw [foldl_cons, hrou, ih]

end

/-! ## Invocations -/

/-- What an invocation can do to the states. -/
inductive Outcome (table : Table) (inv : Invocation) (s : Store) : Store → Prop where
  /-- Nothing, or it is rolled back. -/
  | unchanged : Outcome table inv s s
  /-- The table is set up. -/
  | setup {exit : Exit} : s.readInt countOfMembersKey = none →
      Govern.setup table s = .ok exit → Outcome table inv s (exit.after s)
  /-- A vote is recorded, and the table stays as it is. -/
  | voted {ballot : Ballot} {s' : Store} {votes : UInt8} :
      s.readInt (memberKey inv.account.data) ≠ none → readBallot table inv = .ok ballot →
      recordVote s inv.account ballot = .ok (s', votes) → Outcome table inv s s'
  /-- A reward topic is actioned. -/
  | rewarded {memberCount : Nat} {ballot : Ballot} {s₁ : Store} :
      castVote table inv memberCount s = .ok (ballot, s₁) → ballot.topic.type = .reward →
      Outcome table inv s (s₁.set (leftPad [0x52, ballot.topic.n]) ballot.data)
  /-- A seat topic is actioned. -/
  | seated {memberCount : Nat} {ballot : Ballot} {exit : Exit} {s₁ : Store} :
      s.readInt countOfMembersKey = some memberCount →
      castVote table inv memberCount s = .ok (ballot, s₁) →
      ¬ (ballot.topic.l = 1 ∧ table.isL1Table = false) → ballot.topic.type = .seat →
      actionSeat ballot memberCount s₁ = .ok exit → Outcome table inv s (exit.after s)

theorem fails_readBallot (hP : ∀ message, P (.rollback message)) :
    FailsWith P (readBallot table inv) := by
  have hlay : FailsWith P (readLayer table inv) := by
    unfold readLayer
    split
    · exact .ok
    split
    · exact .bind (.failIf (hP _)) fun _ _ => .ok
    · exact .error (hP _)
  unfold readBallot
  split
  · split
    · exact .error (hP _)
    · refine .bind (.failIf (hP _)) fun _ _ => .bind (.failIf (hP _)) fun _ _ => ?_
      refine .bind (.failIf (hP _)) fun _ _ => .bind hlay fun l _ => ?_
      exact .bind (.failIf (hP _)) fun _ _ => .bind (.failIf (hP _)) fun _ _ => .ok
  · exact .error (hP _)

theorem fails_recordVote (hP : ∀ message, P (.rollback message))
    (hs : ∀ message, P (.accept message s)) : FailsWith P (recordVote s acc ballot) := by
  refine .bind (.failIf (hs _)) fun _ _ => .bind ?_ fun _ _ => .ok
  unfold withdraw
  split
  · exact .ok
  dsimp only
  split
  · exact .bind (.failIf (hP _)) fun _ _ => .ok
  · exact .error (hP _)

theorem fails_castVote :
    FailsWith (fun exit => Outcome table inv s (exit.after s)) (castVote table inv memberCount s) := by
  have hunc : ∀ message, Outcome table inv s ((Exit.rollback message).after s) :=
    fun _ => .unchanged
  refine .bind (.failIf .unchanged) fun _ hmemb => ?_
  refine .bind (fails_readBallot hunc) fun ballot hbal => ?_
  refine .bind (fails_recordVote hunc fun _ => .unchanged) fun recorded hrec => ?_
  exact .bind (.failIf (.voted (failIf_eq_ok.mp hmemb) hbal hrec)) fun _ _ => .ok

theorem fails_actionSeat (hP : ∀ message, P (.rollback message))
    (hs : ∀ message, P (.accept message s)) : FailsWith P (actionSeat ballot memberCount s) := by
  refine .bind (.failIf (hs _)) fun _ _ => ?_
  exact .bind (.failIf (hP _)) fun _ _ => .bind (.failIf (hP _)) fun _ _ => .ok

theorem fails_setup (hP : ∀ message, P (.rollback message)) : FailsWith P (setup table s) := by
  have hpar : ∀ param message, FailsWith P (rewardParam param message) := by
    intro param message
    unfold rewardParam
    split
    · exact .error (hP _)
    · exact .bind (.failIf (hP _)) fun _ _ => .ok
  have hrew : ∀ s, FailsWith P (setRewards table s) := by
    intro s
    refine .bind (hpar _ _) fun _ _ => .bind (hpar _ _) fun _ _ => ?_
    exact .bind (.failIf (hP _)) fun _ _ => .ok
  have hsea : ∀ is s, FailsWith P (seatMembers table is s) := by
    intro is
    induction is with
    | nil => exact fun _ => .ok
    | cons i is ih => exact fun _ => .bind (.failIf (hP _)) fun _ _ => ih _
  unfold setup
  split
  · refine .bind (.failIf (hP _)) fun _ _ => .bind (.failIf (hP _)) fun _ _ => .bind ?_ fun _ _ => ?_
    · split
      · exact hrew _
      · exact .ok
    · exact .bind (hsea _ _) fun _ _ => .ok
  · exact .error (hP _)

theorem outcome_action (hcount : s.readInt countOfMembersKey = some memberCount)
    (hcast : castVote table inv memberCount s = .ok (ballot, s₁)) :
    Outcome table inv s ((ended (action table inv memberCount ballot s₁)).after s) := by
  obtain ⟨hmemb, hbal, votes, hrec, -⟩ := castVote_eq_ok hcast
  have hvot : Outcome table inv s s₁ := .voted hmemb hbal hrec
  unfold action
  split
  · split
    · exact hvot
    · exact .unchanged
  rename_i hhere
  cases htype : ballot.topic.type with
  | reward => exact .rewarded hcast htype
  | hook =>
    dsimp only [actionHook]
    split
    · exact hvot
    split
    · exact .unchanged
    split
    · exact .unchanged
    · exact hvot
  | seat =>
    cases hseat : actionSeat ballot memberCount s₁ with
    | error exit =>
      exact fails_actionSeat (P := fun exit => Outcome table inv s (exit.after s))
        (fun _ => .unchanged) (fun _ => hvot) exit hseat
    | ok exit => exact .seated hcount hcast hhere htype hseat

/-- **What an invocation can do**: every case of the hook. -/
theorem outcome_run (table : Table) (inv : Invocation) (s : Store) :
    Outcome table inv s (run table inv s) := by
  unfold run hook
  cases passing table inv with
  | some message => exact .unchanged
  | none =>
    cases hcount : s.readInt countOfMembersKey with
    | none =>
      cases hset : setup table s with
      | error exit =>
        exact fails_setup (P := fun exit => Outcome table inv s (exit.after s))
          (fun _ => .unchanged) exit hset
      | ok exit => exact .setup hcount hset
    | some memberCount =>
      dsimp only
      cases hcast : castVote table inv memberCount s with
      | error exit => exact fails_castVote exit hcast
      | ok result => exact outcome_action hcount hcast

end

end Xahau.Govern
