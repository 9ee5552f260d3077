import Xahau.Data.Cardinality
import Xahau.Data.Supporters
import Xahau.Govern.Seats

/-! # Votes and their counters

The counter of a topic and a value is the number of sitting members who vote for it, as long as no
member is removed who has voted: the loop that collects the votes of a removed member looks for them
with the layer zero, which no vote has. -/

namespace Xahau.Govern

open Cardinality Checked Function List PartialBijection Supporters

/-! ## Sitting members -/

section

variable (s : Store) (topic : Topic) (data : Blob)

/-- The account identifier in an entry. -/
def accountOf : Option AccountID :=
  if h : data.length = 20 then some ⟨data, h⟩ else none

/-- The members who sit on the seats. -/
def sitting : List AccountID :=
  (List.finRange 20).filterMap fun n => (s (seatKey (seatByte n))).bind accountOf

/-- The sitting members whose recorded vote on a topic is the given data. -/
def supporters : List AccountID :=
  (sitting s).filter fun acc => s (voteKey topic acc) = some data

/-- The stored number of votes for a topic and its data, or zero. -/
def storedCount : Nat :=
  (((s.read 1 (countKey topic (topic.type.buffer data))).bind List.head?).getD 0).toNat

end

section

variable {s s' s₁ : Store} {σ : Fin 20 ≃. AccountID} {c : Nat} {acc : AccountID} {key : UInt256}
  {data : Blob} {topic : Topic} {table : Table} {inv : Invocation} {ballot : Ballot} {votes : UInt8}
  {voted : Set Blob} {exit : Exit}

section

variable (h : Seating s σ c)

include h

theorem Seating.sitting_eq : sitting s = (List.finRange 20).filterMap σ := by
  refine filterMap_congr fun n _ => ?_
  rw [h.seats n]
  cases σ n with
  | none => rfl
  | some acc => exact dif_pos acc.data_length

theorem Seating.mem_sitting : acc ∈ sitting s ↔ σ.symm acc ≠ none := by
  rw [h.sitting_eq, mem_filterMap, Option.ne_none_iff_exists']
  simp only [mem_finRange, true_and]
  exact exists_congr fun n => σ.eq_some_iff.symm

theorem Seating.nodup_sitting : (sitting s).Nodup := by
  rw [h.sitting_eq]
  exact (nodup_finRange 20).filterMap fun n m acc hn hm => σ.inj hn hm

theorem Seating.length_sitting : (sitting s).length = size σ := by
  rw [← ncard_partners]
  exact (ncard_of_nodup h.nodup_sitting fun _ => h.mem_sitting).symm

end

/-! ## Votes stay -/

/-- The entries of votes and counters stay, and those of the table apart. -/
def SameVotes (s s' : Store) : Prop := ∀ key : UInt256, key.data.head? ≠ some 0 → s' key = s key

theorem SameVotes.refl : SameVotes s s := fun _ _ => rfl

theorem SameVotes.trans (h : SameVotes s s₁) (h' : SameVotes s₁ s') : SameVotes s s' :=
  fun key hkey => (h' key hkey).trans (h key hkey)

theorem SameVotes.set (h : SameVotes s s') (hkey : key.data.head? = some 0) :
    SameVotes s (s'.set key data) := by
  intro key' hkey'
  rw [Store.set_of_ne, h key' hkey']
  rintro rfl
  exact hkey' hkey

theorem SameVotes.vote (h : SameVotes s s') (topic : Topic) (acc : AccountID) :
    s' (voteKey topic acc) = s (voteKey topic acc) := by
  refine h _ ?_
  rw [head_voteKey]
  decide

theorem SameVotes.counter (h : SameVotes s s') (topic : Topic) (topicData : UInt256) :
    s' (countKey topic topicData) = s (countKey topic topicData) := by
  refine h _ ?_
  rw [head_countKey]
  decide

theorem head_memberKey_of_length (h : data.length = 20) : (memberKey data).data.head? = some 0 :=
  head_leftPad (h.trans_lt (by decide))

theorem sameVotes_setup (h : setup table s = .ok exit) (s₀ : Store) : SameVotes s (exit.after s₀) := by
  have hmemb : ∀ is s s', seatMembers table is s = .ok s' → SameVotes s s' := by
    intro is
    induction is with
    | nil =>
      intro s s' hs
      cases hs
      exact .refl
    | cons i is ih =>
      intro s s' hs
      simp only [seatMembers, bind_eq_ok, failIf_eq_ok, not_not] at hs
      obtain ⟨_, hlen, hs⟩ := hs
      exact ((SameVotes.refl.set (head_seatKey i)).set
        (head_memberKey_of_length hlen)).trans (ih _ _ hs)
  unfold setup at h
  split at h
  · simp only [bind_eq_ok, failIf_eq_ok] at h
    obtain ⟨_, -, _, -, s₁, hrew, s₂, hs₂, h⟩ := h
    cases h
    refine SameVotes.trans ?_ (hmemb _ _ _ hs₂)
    split at hrew
    · unfold setRewards at hrew
      simp only [bind_eq_ok, failIf_eq_ok] at hrew
      obtain ⟨irr, -, ird, -, _, -, hrew⟩ := hrew
      cases hrew
      exact ((SameVotes.refl.set head_countOfMembersKey).set (head_leftPad (by decide))).set
        (head_leftPad (by decide))
    · cases hrew
      exact SameVotes.refl.set head_countOfMembersKey
  · cases h

theorem head_collectedKey (i : Nat) : (collectedKey acc i).data.head? ≠ some 0 := by
  show some (0x56 : UInt8) ≠ some 0
  decide

theorem sameVotes_actionSeat {memberCount : Nat} (hlen : ballot.data.length = 20)
    (hcol : ∀ acc i, s (collectedKey acc i) = none)
    (h : actionSeat ballot memberCount s = .ok exit) (s₀ : Store) : SameVotes s (exit.after s₀) := by
  unfold actionSeat at h
  simp only [bind_eq_ok] at h
  obtain ⟨_, -, _, -, _, -, h⟩ := h
  cases h
  generalize adjustedCount _ _ _ memberCount = count
  generalize s.readInt (memberKey ballot.data) = existing
  have hmemb := head_memberKey_of_length hlen
  have hleave : SameVotes s
      (leaveSeat existing ballot.data (s.set countOfMembersKey [UInt8.ofNat count])) := by
    have hcount : SameVotes s (s.set countOfMembersKey [UInt8.ofNat count]) :=
      SameVotes.refl.set head_countOfMembersKey
    cases existing with
    | none => exact hcount
    | some m => exact (hcount.set (head_seatKey _)).set hmemb
  have huns : ∀ previous, SameVotes s (unseat ballot.topic.n previous
      (leaveSeat existing ballot.data (s.set countOfMembersKey [UInt8.ofNat count]))) := by
    intro previous
    cases previous with
    | none => exact hleave
    | some previous =>
      show SameVotes s (((collectVotes previous _).set _ _).set _ _)
      rw [collectVotes_eq previous fun i => (hleave _ (head_collectedKey i)).trans (hcol _ i)]
      exact (hleave.set (head_seatKey _)).set (head_memberKey previous)
  split
  · exact huns _
  · exact ((huns _).set (head_seatKey _)).set hmemb

/-! ## Recorded votes -/

/-- Who has voted for what: members, with well-formed votes. -/
structure Recorded (s : Store) (σ : Fin 20 ≃. AccountID) (voted : Set Blob) : Prop where
  seating : Seating s σ (size σ)
  sits : ∀ topic acc data, s (voteKey topic acc) = some data → σ.symm acc ≠ none
  length : ∀ topic acc data, s (voteKey topic acc) = some data → data.length = topic.type.size
  layer : ∀ topic acc data, s (voteKey topic acc) = some data → topic.l ≠ 0
  voted : ∀ topic acc data, s (voteKey topic acc) = some data → data ∈ voted

def entryOf (k : Nat) : Option Blob := if k = 0 then none else some [UInt8.ofNat k]

/-- The counter of a value has the number of those who vote for it. -/
def Tallied (s : Store) (topic : Topic) (data : Blob) : Prop :=
  s (countKey topic (topic.type.buffer data)) =
    entryOf (support (fun acc => s (voteKey topic acc)) data).ncard

theorem recordVote_voteKey (hdata : ballot.data ≠ []) (h : recordVote s acc ballot = .ok (s', votes))
    (topic : Topic) (acc' : AccountID) :
    s' (voteKey topic acc') =
      if topic = ballot.topic ∧ acc' = acc then some ballot.data else s (voteKey topic acc') := by
  obtain ⟨-, s₁, hwit, hcount⟩ := recordVote_eq_ok h
  have hne : ∀ topic' topicData, voteKey topic acc' ≠ countKey topic' topicData :=
    fun _ _ => ne_of_head (head_voteKey ..) (head_countKey ..) (by decide)
  have hs₁ : s₁ (voteKey topic acc') = s.set (voteKey ballot.topic acc) ballot.data
      (voteKey topic acc') := by
    rcases withdraw_cases hwit with ⟨-, rfl⟩ | ⟨_, _, -, -, rfl⟩
    · rfl
    · rw [Store.set_of_ne (hne _ _)]
  cases hcount
  rw [Store.set_of_ne (hne _ _), hs₁]
  split
  next heq =>
    rw [voteKey_inj.mpr heq, Store.set_self, if_neg hdata]
  next heq =>
    rw [Store.set_of_ne (heq ∘ voteKey_inj.mp)]

namespace Recorded

section

variable (topic) (h : Recorded s σ voted)

include h

theorem read_vote (acc : AccountID) :
    s.read topic.type.size (voteKey topic acc) = s (voteKey topic acc) := by
  unfold Store.read
  cases hvote : s (voteKey topic acc) with
  | none => rfl
  | some data =>
    rw [Option.filter_some, if_pos]
    exact decide_eq_true (h.length topic acc data hvote).le

theorem support_subset (data : Blob) :
    support (fun acc => s (voteKey topic acc)) data ⊆ { acc | σ.symm acc ≠ none } :=
  fun acc hacc => h.sits topic acc data hacc

theorem finite_support (data : Blob) : (support (fun acc => s (voteKey topic acc)) data).Finite :=
  (finite_partners σ).subset (h.support_subset topic data)

theorem ncard_support_le (data : Blob) :
    (support (fun acc => s (voteKey topic acc)) data).ncard ≤ size σ :=
  (Set.ncard_le_ncard (h.support_subset topic data) (finite_partners σ)).trans_eq (ncard_partners σ)

theorem length_supporters (data : Blob) :
    (supporters s topic data).length = (support (fun acc => s (voteKey topic acc)) data).ncard := by
  refine (ncard_of_nodup (h.seating.nodup_sitting.filter _) fun acc => ?_).symm
  rw [mem_filter, h.seating.mem_sitting, decide_eq_true_iff]
  exact and_iff_right_of_imp (h.sits topic acc data)

end

theorem recordVote (h : Recorded s σ voted) (hsits : σ.symm acc ≠ none)
    (hbal : readBallot table inv = .ok ballot) (hs : recordVote s acc ballot = .ok (s', votes)) :
    Recorded s' σ (insert ballot.data voted) := by
  obtain ⟨hlen, -, -, -, hlay⟩ := readBallot_eq_ok hbal
  have hdata : ballot.data ≠ [] := by
    intro hnil
    rw [hnil] at hlen
    cases htype : ballot.topic.type <;> rw [htype] at hlen <;> cases hlen
  have hvot := recordVote_voteKey hdata hs
  -- a recorded vote is the new one or an old one
  have hcas : ∀ topic acc' data, s' (voteKey topic acc') = some data →
      (topic = ballot.topic ∧ acc' = acc ∧ data = ballot.data) ∨ s (voteKey topic acc') = some data := by
    intro topic acc' data hvote
    rw [hvot topic acc'] at hvote
    split at hvote
    next heq =>
      exact .inl ⟨heq.1, heq.2, (Option.some.inj hvote).symm⟩
    · exact .inr hvote
  refine ⟨h.seating.of_sameTable (sameTable_recordVote hs), fun topic acc' data hvote => ?_,
    fun topic acc' data hvote => ?_, fun topic acc' data hvote => ?_, fun topic acc' data hvote => ?_⟩
  all_goals rcases hcas topic acc' data hvote with ⟨rfl, rfl, rfl⟩ | hvote
  · exact hsits
  · exact h.sits topic acc' data hvote
  · exact hlen
  · exact h.length topic acc' data hvote
  · rcases hlay with hl | hl
    · rw [hl]
      decide
    · rw [hl]
      decide
  · exact h.layer topic acc' data hvote
  · exact Set.mem_insert _ _
  · exact Set.mem_insert_of_mem _ (h.voted topic acc' data hvote)

end Recorded

/-! ## Counters -/

variable {k : Nat}

theorem head_entryOf (h : s key = entryOf k) :
    ((s.read 1 key).bind List.head?).getD 0 = UInt8.ofNat k := by
  unfold Store.read
  rw [h]
  unfold entryOf
  split
  next hk =>
    rw [hk]
    rfl
  · rfl

theorem entryOf_pred {v : UInt8} (hk : k + 1 < 256) (h : s key = entryOf (k + 1))
    (hv : s.read 1 key = some [v]) :
    s.set key (if v - 1 = 0 then [] else [v - 1]) key = entryOf k := by
  have hhead := head_entryOf h
  rw [hv] at hhead
  have hv : v = UInt8.ofNat (k + 1) := hhead
  have hpred : v - 1 = UInt8.ofNat k := by
    rw [hv, UInt8.ofNat_add]
    exact UInt8.add_sub_cancel _ _
  have hzero : UInt8.ofNat k = 0 ↔ k = 0 := by
    rw [← UInt8.toNat_inj, UInt8.toNat_ofNat_of_lt' (by omega : k < 256)]
    rfl
  rw [hpred, Store.set_self]
  unfold entryOf
  by_cases hk : k = 0
  · rw [if_pos hk, if_pos (hzero.mpr hk), if_pos rfl]
  · rw [if_neg hk, if_neg (hk ∘ hzero.mp), if_neg (cons_ne_nil _ _)]

theorem entryOf_succ (h : s key = entryOf k) :
    s.set key [((s.read 1 key).bind List.head?).getD 0 + 1] key = entryOf (k + 1) := by
  rw [head_entryOf h, Store.set_self, if_neg (cons_ne_nil _ _)]
  show some [UInt8.ofNat k + UInt8.ofNat 1] = some [UInt8.ofNat (k + 1)]
  rw [UInt8.ofNat_add]

theorem Tallied.storedCount_eq (h : Tallied s topic data)
    (hk : (support (fun acc => s (voteKey topic acc)) data).ncard < 256) :
    storedCount s topic data = (support (fun acc => s (voteKey topic acc)) data).ncard := by
  unfold storedCount
  rw [head_entryOf h, UInt8.toNat_ofNat_of_lt' hk]

theorem Tallied.of_sameVotes (h : Tallied s topic data) (hs : SameVotes s s') :
    Tallied s' topic data := by
  have hvot : (fun acc => s' (voteKey topic acc)) = fun acc => s (voteKey topic acc) :=
    funext fun acc => hs.vote topic acc
  unfold Tallied
  rw [hvot, hs.counter]
  exact h

theorem withdraw_tallied (h : Recorded s σ voted) (ht : Tallied s topic data)
    (hlen : data.length = topic.type.size)
    (hhook : topic.type = .hook → ∀ data' ∈ voted, data'.drop 4 = data.drop 4 → data' = data)
    {newData : Blob}
    (hs : withdraw topic (s (voteKey topic acc)) (s.set (voteKey topic acc) newData) = .ok s₁) :
    s₁ (countKey topic (topic.type.buffer data)) =
      entryOf (support (update (fun acc => s (voteKey topic acc)) acc none) data).ncard := by
  have hsame : ∀ acc', acc' ≠ acc →
      update (fun acc => s (voteKey topic acc)) acc none acc' = s (voteKey topic acc') :=
    fun _ hne => update_of_ne hne ..
  have hself : update (fun acc => s (voteKey topic acc)) acc none acc ≠ some data := by
    rw [update_self]
    exact nofun
  have hset : ∀ topicData, s.set (voteKey topic acc) newData (countKey topic topicData) =
      s (countKey topic topicData) :=
    fun _ => Store.set_of_ne (ne_of_head (head_countKey ..) (head_voteKey ..) (by decide))
  rcases withdraw_cases hs with ⟨hn, rfl⟩ | ⟨previous, v, hpre, hv, rfl⟩
  · rw [hset, ht, support_eq hsame _ hself]
    rw [hn]
    exact nofun
  have hkey := countKey_buffer_inj hlen (h.length topic acc previous hpre) fun htype =>
  hhook htype previous (h.voted topic acc previous hpre)
  by_cases heq : previous = data
  · subst heq
    have hleave := support_leave hsame (h.finite_support topic previous) hpre hself
    have hle := h.ncard_support_le topic previous
    have hsize := size_le_card σ
    rw [Nat.card_fin] at hsize
    refine entryOf_pred (by omega) ?_ hv
    rw [hset, ht, hleave]
  · rw [Store.set_of_ne (heq ∘ hkey.mp ∘ Eq.symm), hset, ht, support_eq hsame _ hself]
    rw [hpre]
    exact heq ∘ Option.some.inj

theorem count_tallied {votes₁ votes' : AccountID → Option Blob}
    (hs₁ : s₁ (countKey ballot.topic (ballot.topic.type.buffer data)) =
      entryOf (support votes₁ data).ncard)
    (hfin : (support votes₁ data).Finite)
    (hs : ∀ acc', acc' ≠ acc → votes' acc' = votes₁ acc') (hself : votes₁ acc = none)
    (hnew : votes' acc = some ballot.data) (hkey : countKey ballot.topic ballot.topicData =
      countKey ballot.topic (ballot.topic.type.buffer data) ↔ ballot.data = data)
    (hcount : count ballot s₁ = (s', votes)) :
    s' (countKey ballot.topic (ballot.topic.type.buffer data)) =
      entryOf (support votes' data).ncard := by
  have hnot : votes₁ acc ≠ some data := by
    rw [hself]
    exact nofun
  cases hcount
  by_cases heq : ballot.data = data
  · rw [support_join hs hfin hnot (hnew.trans (congrArg some heq)), hkey.mpr heq]
    exact entryOf_succ hs₁
  have hnew' : votes' acc ≠ some data := by
    rw [hnew]
    exact heq ∘ Option.some.inj
  rw [Store.set_of_ne (heq ∘ hkey.mp ∘ Eq.symm), hs₁, support_eq hs hnot hnew']

/-- **A member votes**: the counters stay right. -/
theorem Tallied.recordVote (h : Recorded s σ voted) (ht : Tallied s topic data)
    (hlen : data.length = topic.type.size)
    (hhook : topic.type = .hook → ∀ data' ∈ insert ballot.data voted,
      data'.drop 4 = data.drop 4 → data' = data)
    (hbal : ballot.data.length = ballot.topic.type.size) (hdata : ballot.data ≠ [])
    (hs : recordVote s acc ballot = .ok (s', votes)) : Tallied s' topic data := by
  have hvot := recordVote_voteKey hdata hs
  obtain ⟨-, s₁, hwit, hcount⟩ := recordVote_eq_ok hs
  rw [h.read_vote] at hwit
  by_cases htop : topic = ballot.topic
  · subst htop
    have hold : ∀ acc', acc' ≠ acc → update (fun acc => s (voteKey ballot.topic acc)) acc none
        acc' = s (voteKey ballot.topic acc') := fun _ hne => update_of_ne hne ..
    have hself : update (fun acc => s (voteKey ballot.topic acc)) acc none acc = none :=
      update_self ..
    have hnot : update (fun acc => s (voteKey ballot.topic acc)) acc none acc ≠ some data := by
      rw [hself]
      exact nofun
    have hfin := (h.finite_support ballot.topic data).subset (support_subset hold hnot)
    refine count_tallied (withdraw_tallied h ht hlen ?_ hwit) hfin ?_ hself ?_ ?_ hcount
    · exact fun htype data' hdata' => hhook htype data' (Set.mem_insert_of_mem _ hdata')
    · intro acc' hne
      rw [hvot, if_neg (hne ∘ And.right), hold acc' hne]
    · rw [hvot, if_pos ⟨rfl, rfl⟩]
    · exact countKey_buffer_inj hlen hbal fun htype =>
      hhook htype ballot.data (Set.mem_insert _ _)
  · -- nothing of the topic changes
    have hne : ∀ topicData topicData', countKey topic topicData ≠ countKey ballot.topic topicData' :=
      fun _ _ hkey => htop (countKey_inj.mp hkey).1
    have hsame : (fun acc' => s' (voteKey topic acc')) = fun acc' => s (voteKey topic acc') := by
      funext acc'
      rw [hvot, if_neg (htop ∘ And.left)]
    have hset : s.set (voteKey ballot.topic acc) ballot.data (countKey topic (topic.type.buffer data)) =
        s (countKey topic (topic.type.buffer data)) :=
      Store.set_of_ne (ne_of_head (head_countKey ..) (head_voteKey ..) (by decide))
    unfold Tallied
    rw [hsame, ← ht, ← hset]
    cases hcount
    rw [Store.set_of_ne (hne _ _)]
    rcases withdraw_cases hwit with ⟨-, rfl⟩ | ⟨_, _, -, -, rfl⟩
    · rfl
    · rw [Store.set_of_ne (hne _ _)]

theorem recordVote_votes (ht : Tallied s' ballot.topic ballot.data)
    (hk : (support (fun acc => s' (voteKey ballot.topic acc)) ballot.data).ncard < 256)
    (hs : recordVote s acc ballot = .ok (s', votes)) :
    votes.toNat = (support (fun acc => s' (voteKey ballot.topic acc)) ballot.data).ncard := by
  have hsto := ht.storedCount_eq hk
  obtain ⟨-, s₁, -, hcount⟩ := recordVote_eq_ok hs
  have hent : s' (countKey ballot.topic (ballot.topic.type.buffer ballot.data)) = some [votes] := by
    cases hcount
    exact Store.set_self.trans (if_neg (cons_ne_nil _ _))
  unfold storedCount Store.read at hsto
  rw [hent] at hsto
  exact hsto

end

end Xahau.Govern
