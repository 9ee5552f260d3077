import Xahau.Data.PartialBijection
import Xahau.Govern.Invocations

/-! # The members of a table

Each seat has its member, and each member has the seat. The two stay inverse, and the member count
the number of seats taken, as long as no account identifier, padded with zeros, is the key of
something else. -/

namespace Xahau.Govern

open Checked List PartialBijection PartialBijection

/-! ## Seatings -/

def seatByte (n : Fin 20) : UInt8 := UInt8.ofNat n

/-- The key of the reward rate or the reward delay. -/
def IsRewardKey (key : UInt256) : Prop := key = leftPad [0x52, 0x52] ∨ key = leftPad [0x52, 0x44]

/-- The account identifier, padded with zeros, is not the key of something else. -/
structure Plain (acc : AccountID) : Prop where
  seat : ∀ n : Fin 20, memberKey acc.data ≠ seatKey (seatByte n)
  count : memberKey acc.data ≠ countOfMembersKey
  reward : ¬ IsRewardKey (memberKey acc.data)

variable {acc : AccountID} {n : Fin 20} {imc : UInt8}

/-- The states have a seating in both directions, and a member count. -/
structure Seating (s : Store) (σ : Fin 20 ≃. AccountID) (count : Nat) : Prop where
  /-- `{0..0, '\0 + seat id'}`. -/
  seats : ∀ n, s (seatKey (seatByte n)) = (σ n).map BaseUInt.data
  /-- `{0..0, <20 byte account id>}`. -/
  members : ∀ acc, Plain acc → s (memberKey acc.data) = (σ.symm acc).map fun n => [seatByte n]
  /-- `{0..0, 'M', 'C'}`. -/
  count : s countOfMembersKey = some [UInt8.ofNat count]
  plain : ∀ n acc, σ n = some acc → Plain acc

section

variable {s s' : Store} {σ : Fin 20 ≃. AccountID} {count : Nat} {n : Fin 20} {acc : AccountID}
  {key : UInt256} {data : Blob}

theorem seatByte_injective : Function.Injective seatByte := by decide

theorem seatByte_toNat (n : Fin 20) : (seatByte n).toNat = n := by
  revert n
  decide

variable {ballot : Ballot} {inv : Invocation} {b : UInt8}

theorem exists_seatByte (h : b ≤ 19) : ∃ n, seatByte n = b := by
  have hb : b.toNat < 20 := Nat.lt_succ_of_le (UInt8.le_iff_toNat_le.mp h)
  refine ⟨⟨b.toNat, hb⟩, ?_⟩
  exact UInt8.ofNat_toNat

theorem seatKey_ne_pair {a : UInt8} (c : UInt8) (ha : a ≠ 0) : seatKey c ≠ leftPad [a, b] := by
  intro h
  have hpad : leftPad [0, c] = seatKey c := leftPad_cons_zero [c] (by simp)
  have hdata : [0, c] = [a, b] := leftPad_injective (by simp) rfl (hpad.trans h)
  exact ha (List.cons.inj hdata).1.symm

theorem seatKey_ne_count (c : UInt8) : seatKey c ≠ countOfMembersKey :=
  seatKey_ne_pair c (by decide)

theorem seatKey_not_reward (c : UInt8) : ¬ IsRewardKey (seatKey c) := by
  rintro (h | h)
  · exact seatKey_ne_pair c (by decide) h
  · exact seatKey_ne_pair c (by decide) h

namespace Seating

section

variable (h : Seating s σ count)

include h

theorem of_sameTable (hs : SameTable s s') : Seating s' σ count where
  seats n := (hs _ (head_seatKey _)).trans (h.seats n)
  members acc hacc := (hs _ (head_memberKey acc)).trans (h.members acc hacc)
  count := (hs _ head_countOfMembersKey).trans h.count
  plain := h.plain

theorem set_reward (hkey : IsRewardKey key) :
    Seating (s.set key data) σ count where
  seats n := by
    rw [Store.set_of_ne, h.seats n]
    rintro rfl
    exact seatKey_not_reward _ hkey
  members acc hacc := by
    rw [Store.set_of_ne, h.members acc hacc]
    rintro rfl
    exact hacc.reward hkey
  count := by
    rw [Store.set_of_ne, h.count]
    rintro rfl
    exact absurd hkey (by unfold IsRewardKey; decide)
  plain := h.plain

theorem set_count (count' : Nat) :
    Seating (s.set countOfMembersKey [UInt8.ofNat count']) σ count' where
  seats n := by rw [Store.set_of_ne (seatKey_ne_count _), h.seats n]
  members acc hacc := by rw [Store.set_of_ne hacc.count, h.members acc hacc]
  count := Store.set_self
  plain := h.plain

/-- **A member leaves their seat.** -/
theorem leave (hacc : σ n = some acc) :
    Seating ((s.set (seatKey (seatByte n)) []).set (memberKey acc.data) []) (erase σ n) count where
  seats m := by
    have hpla := h.plain n acc hacc
    rw [Store.set_of_ne (hpla.seat m).symm, erase_apply]
    by_cases hm : m = n
    · rw [hm, Store.set_self, if_pos rfl, if_pos rfl]
      rfl
    · rw [Store.set_of_ne, h.seats m, if_neg hm]
      exact fun hkey => hm (seatByte_injective (seatKey_injective hkey))
  members acc' hacc' := by
    have hinv : σ.symm acc' = some n ↔ acc' = acc := by
      rw [σ.eq_some_iff, hacc, Option.some.injEq, eq_comm]
    rw [erase_symm_apply]
    by_cases heq : acc' = acc
    · rw [if_pos (hinv.mpr heq), heq, Store.set_self, if_pos rfl]
      rfl
    · rw [if_neg (heq ∘ hinv.mp), Store.set_of_ne fun hkey => heq (memberKey_injective hkey),
        Store.set_of_ne (hacc'.seat n), h.members acc' hacc']
  count := by
    rw [Store.set_of_ne (h.plain n acc hacc).count.symm, Store.set_of_ne (seatKey_ne_count _).symm,
      h.count]
  plain m acc' hm := by
    rw [erase_apply] at hm
    split at hm
    · cases hm
    · exact h.plain m acc' hm

/-- **A seat is taken**: neither the seat nor the account was in the seating. -/
theorem take (hn : σ n = none) (hfree : σ.symm acc = none) (hpla : Plain acc) :
    Seating ((s.set (seatKey (seatByte n)) acc.data).set (memberKey acc.data) [seatByte n])
      (insert σ n acc hn hfree) count where
  seats m := by
    rw [Store.set_of_ne (hpla.seat m).symm, insert_apply]
    by_cases hm : m = n
    · have hdata : acc.data ≠ [] := by
        intro hnil
        exact absurd (hnil ▸ acc.data_length) (by decide)
      rw [hm, Store.set_self, if_neg hdata, if_pos rfl]
      rfl
    · rw [Store.set_of_ne, h.seats m, if_neg hm]
      exact fun hkey => hm (seatByte_injective (seatKey_injective hkey))
  members acc' hacc' := by
    rw [insert_symm_apply]
    by_cases heq : acc' = acc
    · rw [if_pos heq, heq, Store.set_self, if_neg (cons_ne_nil _ _)]
      rfl
    · rw [if_neg heq, Store.set_of_ne fun hkey => heq (memberKey_injective hkey),
        Store.set_of_ne (hacc'.seat n), h.members acc' hacc']
  count := by
    rw [Store.set_of_ne hpla.count.symm, Store.set_of_ne (seatKey_ne_count _).symm, h.count]
  plain m acc' hm := by
    rw [insert_apply] at hm
    split at hm
    · cases hm
      exact hpla
    · exact h.plain m acc' hm

end

end Seating

/-! ## Setting up a table -/

/-- An initial member of a table, and their seat. -/
def Table.IsInitial (table : Table) (n : Fin 20) (acc : AccountID) : Prop :=
  (∃ imc, table.initialMemberCount = some [imc] ∧ n < imc.toNat) ∧
    table.initialSeat (seatByte n) = some acc.data

theorem seating_bot (count : Nat) :
    Seating (Store.set (fun _ => none) countOfMembersKey [UInt8.ofNat count]) ⊥ count where
  seats _ := Store.set_of_ne (seatKey_ne_count _)
  members _ hacc := Store.set_of_ne hacc.count
  count := Store.set_self
  plain _ _ h := nomatch h

variable {table : Table} {is : List (Fin 20)} {exit : Exit}

theorem Seating.seatMembers (h : Seating s σ count) (hnd : is.Nodup) (hemp : ∀ i ∈ is, σ i = none)
    (hfree : ∀ i ∈ is, ∀ acc : AccountID, table.initialSeat (seatByte i) = some acc.data →
      Plain acc ∧ σ.symm acc = none)
    (hdist : ∀ i ∈ is, ∀ j ∈ is, ∀ acc : AccountID, table.initialSeat (seatByte i) = some acc.data →
      table.initialSeat (seatByte j) = some acc.data → i = j)
    (hs : Govern.seatMembers table (is.map seatByte) s = .ok s') :
    ∃ σ', Seating s' σ' count ∧ size σ' = size σ + is.length := by
  induction is generalizing s σ with
  | nil =>
    cases hs
    exact ⟨σ, h, rfl⟩
  | cons i is ih =>
    simp only [map_cons, Govern.seatMembers, bind_eq_ok, failIf_eq_ok, not_not] at hs
    obtain ⟨_, hlen, hs⟩ := hs
    obtain ⟨hi, hnd⟩ := nodup_cons.mp hnd
    -- the parameter has the bytes of an account
    obtain ⟨acc, hacc⟩ : ∃ acc : AccountID, table.initialSeat (seatByte i) = some acc.data := by
      cases hpar : table.initialSeat (seatByte i) with
      | none =>
        rw [hpar] at hlen
        cases hlen
      | some data =>
        rw [hpar] at hlen
        exact ⟨⟨data, hlen⟩, rfl⟩
    rw [hacc, Option.getD_some] at hs
    have hn := hemp i mem_cons_self
    obtain ⟨hpla, hacc'⟩ := hfree i mem_cons_self acc hacc
    have hemp' : ∀ j ∈ is, insert σ i acc hn hacc' j = none := by
      intro j hj
      rw [insert_apply, if_neg (fun heq : j = i => hi (heq ▸ hj)), hemp j (mem_cons_of_mem i hj)]
    have hfree' : ∀ j ∈ is, ∀ acc' : AccountID, table.initialSeat (seatByte j) = some acc'.data →
        Plain acc' ∧ (insert σ i acc hn hacc').symm acc' = none := by
      intro j hj acc' hj'
      obtain ⟨hpla', hfree'⟩ := hfree j (mem_cons_of_mem i hj) acc' hj'
      refine ⟨hpla', ?_⟩
      rw [insert_symm_apply, if_neg, hfree']
      rintro rfl
      -- the account would have two initial seats
      have heq := hdist i mem_cons_self j (mem_cons_of_mem i hj) acc' hacc hj'
      exact hi (heq ▸ hj)
    obtain ⟨σ', hσ', hsize⟩ := ih (h.take hn hacc' hpla) hnd hemp' hfree'
      (fun j hj k hk => hdist j (mem_cons_of_mem i hj) k (mem_cons_of_mem i hk)) hs
    refine ⟨σ', hσ', ?_⟩
    rw [hsize, size_insert, length_cons]
    omega

/-- **A table that was set up has a seating.** -/
theorem seating_setup (hpla : ∀ n acc, table.IsInitial n acc → Plain acc)
    (hdist : ∀ n m acc, table.IsInitial n acc → table.IsInitial m acc → n = m)
    (h : setup table (fun _ => none) = .ok exit) :
    ∃ σ, Seating (exit.after fun _ => none) σ (size σ) := by
  unfold setup at h
  split at h
  next imc himc =>
    simp only [bind_eq_ok, failIf_eq_ok, not_lt] at h
    obtain ⟨_, -, _, hle, s₁, hrew, s₂, hmemb, h⟩ := h
    cases h
    change imc.toNat ≤ 20 at hle
    have hcount := seating_bot imc.toNat
    rw [UInt8.ofNat_toNat] at hcount
    have hs₁ : Seating s₁ ⊥ imc.toNat := by
      split at hrew
      · unfold setRewards at hrew
        simp only [bind_eq_ok, failIf_eq_ok] at hrew
        obtain ⟨irr, -, ird, -, _, -, hrew⟩ := hrew
        cases hrew
        exact (hcount.set_reward (.inl rfl)).set_reward (.inr rfl)
      · cases hrew
        exact hcount
    have hsea : (List.range imc.toNat).map UInt8.ofNat =
        ((List.finRange imc.toNat).map (Fin.castLE hle)).map seatByte := by
      rw [← map_coe_finRange_eq_range, map_map, map_map]
      rfl
    have hini : ∀ i ∈ (List.finRange imc.toNat).map (Fin.castLE hle), ∀ acc : AccountID,
        table.initialSeat (seatByte i) = some acc.data → table.IsInitial i acc := by
      intro i hi acc hacc
      obtain ⟨k, -, rfl⟩ := mem_map.mp hi
      exact ⟨⟨imc, himc, k.isLt⟩, hacc⟩
    rw [hsea] at hmemb
    obtain ⟨σ, hσ, hsize⟩ := hs₁.seatMembers
      ((nodup_finRange _).map (Fin.castLE_injective hle)) (fun _ _ => rfl)
      (fun i hi acc hacc => ⟨hpla i acc (hini i hi acc hacc), rfl⟩)
      (fun i hi j hj acc hacc hacc' =>
        hdist i j acc (hini i hi acc hacc) (hini j hj acc hacc')) hmemb
    refine ⟨σ, ?_⟩
    rw [hsize, size_bot, length_map, length_finRange, Nat.zero_add]
    exact hσ
  · cases h

/-! ## Changing a seat -/

/-- A seat is given to an account, or nobody. The account leaves its seat, and whoever had the seat
leaves it. -/
structure Reseats (σ : Fin 20 ≃. AccountID) (n : Fin 20) (acc : AccountID)
    (σ' : Fin 20 ≃. AccountID) : Prop where
  here : σ' n = if acc = .zero then none else some acc
  elsewhere : ∀ m, m ≠ n → σ' m = if σ m = some acc then none else σ m

/-- The member count after a seat is given: `moving` from another seat, `full` if someone leaves
this one. -/
theorem adjustedCount_eq {full moving : Bool} {filled left vacated : Nat}
    (hleft : left + (if moving then 1 else 0) = filled)
    (hvac : vacated + (if full then 1 else 0) = left) :
    adjustedCount full false moving filled = vacated + 1 := by
  cases full with
  | false =>
    cases moving with
    | false => exact congrArg (· + 1) (hvac.trans hleft).symm
    | true => exact (hvac ▸ hleft).symm
  | true =>
    cases moving with
    | false => exact (hvac.trans hleft).symm
    | true =>
      rw [← hleft, ← hvac]
      rfl

theorem not_plain_zero : ¬ Plain .zero := fun h => h.seat 0 rfl

namespace Seating

theorem symm_zero (h : Seating s σ count) : σ.symm .zero = none := by
  cases hzero : σ.symm .zero with
  | none => rfl
  | some n => exact absurd (h.plain n .zero (σ.eq_some_iff.mp hzero)) not_plain_zero

theorem read_seat (h : Seating s σ count) (n : Fin 20) :
    s.read 20 (seatKey (seatByte n)) = (σ n).map BaseUInt.data := by
  unfold Store.read
  rw [h.seats n]
  cases σ n with
  | none => rfl
  | some acc =>
    rw [Option.map_some, Option.filter_some, if_pos]
    rw [acc.data_length]
    rfl

theorem readInt_member (h : Seating s σ count) (hacc : acc = .zero ∨ Plain acc) :
    s.readInt (memberKey acc.data) = (σ.symm acc).map Fin.val := by
  unfold Store.readInt
  rcases hacc with rfl | hacc
  · -- the entry is that of the first seat, and too long for a number
    rw [h.symm_zero]
    show (s (seatKey (seatByte 0))).bind dataAsInt64 = none
    rw [h.seats 0]
    cases σ 0 with
    | none => rfl
    | some acc =>
      rw [Option.map_some, Option.bind_some]
      unfold dataAsInt64
      rw [if_pos]
      left
      rw [acc.data_length]
      decide
  · rw [h.members acc hacc]
    cases σ.symm acc with
    | none => rfl
    | some n =>
      rw [Option.map_some, Option.bind_some, dataAsInt64_singleton, seatByte_toNat]
      rfl

theorem readInt_count (h : Seating s σ (size σ)) : s.readInt countOfMembersKey = some (size σ) := by
  have hsize : size σ ≤ 20 := (size_le_card σ).trans_eq (Nat.card_fin 20)
  unfold Store.readInt
  rw [h.count, Option.bind_some, dataAsInt64_singleton, UInt8.toNat_ofNat_of_lt']
  exact Nat.lt_of_le_of_lt hsize (by decide)

section

variable (h : Seating s σ count)

include h

theorem leaveSeat (acc : AccountID) :
    ∃ σ', Seating (leaveSeat ((σ.symm acc).map Fin.val) acc.data s) σ' count ∧
      σ'.symm acc = none ∧ (∀ m, σ' m = if σ m = some acc then none else σ m) ∧
      size σ' + (if (σ.symm acc).isSome then 1 else 0) = size σ := by
  cases hacc : σ.symm acc with
  | none =>
    refine ⟨σ, h, hacc, fun m => ?_, rfl⟩
    rw [if_neg]
    intro hm
    rw [σ.eq_some_iff.mpr hm] at hacc
    cases hacc
  | some m =>
    have hm : σ m = some acc := σ.eq_some_iff.mp hacc
    refine ⟨erase σ m, h.leave hm, ?_, fun k => ?_, size_erase (by simp [hm])⟩
    · rw [erase_symm_apply, if_pos hacc]
    rw [erase_apply]
    by_cases hk : k = m
    · rw [if_pos hk, hk, if_pos hm]
    rw [if_neg hk, if_neg]
    intro hk'
    rw [← σ.eq_some_iff, hacc] at hk'
    exact hk (Option.some.inj hk').symm

theorem unseat (n : Fin 20) : Seating (unseat (seatByte n) (σ n) s) (erase σ n) count := by
  cases hn : σ n with
  | none =>
    rw [erase_eq_self hn]
    exact h
  | some acc => exact (h.of_sameTable (sameTable_collectVotes acc s)).leave hn

theorem read_previous (n : Fin 20) :
    (if hlen : ((s.read 20 (seatKey (seatByte n))).getD []).length = 20 then
      some (⟨(s.read 20 (seatKey (seatByte n))).getD [], hlen⟩ : AccountID) else none) = σ n := by
  cases hn : σ n with
  | none =>
    simp only [h.read_seat n, hn]
    rfl
  | some acc =>
    simp only [h.read_seat n, hn]
    exact dif_pos acc.data_length

theorem seat_eq (n : Fin 20) (acc : AccountID) :
    ((s.read 20 (seatKey (seatByte n))).getD [] ++ List.replicate 20 0).take 20 = acc.data ↔
      (σ n).getD .zero = acc := by
  rw [h.read_seat n]
  cases σ n with
  | none =>
    constructor
    · exact fun heq => BaseUInt.ext heq
    · rintro rfl
      rfl
  | some acc' =>
    have htake : (acc'.data ++ List.replicate 20 0).take 20 = acc'.data :=
      take_left' acc'.data_length
    rw [Option.map_some, Option.getD_some, htake, Option.getD_some]
    exact ⟨BaseUInt.ext, congrArg _⟩

end

/-- **A seat topic is actioned**: the seat is given to the account, and the member count is the
number of seats taken. -/
theorem actionSeat {ballot : Ballot} (h : Seating s σ (size σ)) (htype : ballot.topic.type = .seat)
    (hn : ballot.topic.n = seatByte n) (hdata : ballot.data = acc.data)
    (hacc : acc = .zero ∨ Plain acc) (hs : actionSeat ballot (size σ) s = .ok exit) (s₀ : Store) :
    ∃ σ', Reseats σ n acc σ' ∧ Seating (exit.after s₀) σ' (size σ') := by
  have hzero : decide (ballot.topicData = .zero) = decide (acc = .zero) := by
    unfold Ballot.topicData
    rw [htype, hdata, decide_eq_decide, buffer_eq_zero]
  unfold Govern.actionSeat assert at hs
  simp only [bind_eq_ok, failIf_eq_ok, not_not] at hs
  rw [hn, hdata, h.seat_eq n acc, h.read_previous n, h.readInt_member hacc, hzero,
    Option.isSome_map] at hs
  obtain ⟨_, hnew, _, -, _, -, hs⟩ := hs
  cases hs
  generalize hcount : adjustedCount (σ n).isSome (decide (acc = .zero)) (σ.symm acc).isSome (size σ) =
    count
  obtain ⟨σ₁, hσ₁, hfree, hleft, hsize₁⟩ := (h.set_count count).leaveSeat acc
  have hn₁ : σ₁ n = σ n := by
    rw [hleft n, if_neg]
    intro hsame
    rw [hsame] at hnew
    exact hnew rfl
  have hσ₂ := hσ₁.unseat n
  have hsize₂ := size_erase_add σ₁ n
  rw [hn₁] at hσ₂ hsize₂
  have hfree₂ : (erase σ₁ n).symm acc = none := by
    rw [erase_symm_apply, hfree]
    exact ite_self _
  by_cases hacc₀ : acc = .zero
  · refine ⟨erase σ₁ n, ⟨?_, fun m hm => ?_⟩, ?_⟩
    · rw [erase_apply, if_pos rfl, if_pos hacc₀]
    · rw [erase_apply, if_neg hm, hleft m]
    · have hcount₂ : count = size (erase σ₁ n) := by
        subst hacc₀
        rw [h.symm_zero] at hcount hsize₁
        cases hpre : σ n with
        | none => exact absurd (by rw [hpre]; rfl) hnew
        | some previous =>
          rw [hpre] at hcount hsize₂
          simp [adjustedCount] at hcount hsize₁ hsize₂
          omega
      rw [decide_eq_true hacc₀, if_pos rfl, ← hcount₂]
      exact hσ₂
  · have hn₂ : erase σ₁ n n = none := by rw [erase_apply, if_pos rfl]
    have hσ₃ := hσ₂.take hn₂ hfree₂ (hacc.resolve_left hacc₀)
    have hsize₃ := size_insert hn₂ hfree₂
    refine ⟨insert (erase σ₁ n) n acc hn₂ hfree₂, ⟨?_, fun m hm => ?_⟩, ?_⟩
    · rw [insert_apply, if_pos rfl, if_neg hacc₀]
    · rw [insert_apply, if_neg hm, erase_apply, if_neg hm, hleft m]
    have hcount₃ : count = size (insert (erase σ₁ n) n acc hn₂ hfree₂) := by
      rw [hsize₃, ← hcount, decide_eq_false hacc₀]
      exact adjustedCount_eq hsize₁ hsize₂
    rw [decide_eq_false hacc₀, if_neg Bool.false_ne_true, ← hcount₃]
    exact hσ₃

end Seating

/-! ## Runs -/

/-- An account voted for a seat has no key of something else, but may be zero. -/
def Invocation.VotesPlain (inv : Invocation) : Prop :=
  ∀ acc : AccountID, inv.vote = some acc.data → acc = .zero ∨ Plain acc

theorem exists_of_seat (h : readBallot table inv = .ok ballot) (htype : ballot.topic.type = .seat) :
    ∃ (n : Fin 20) (acc : AccountID), ballot.topic.n = seatByte n ∧ ballot.data = acc.data ∧
      inv.vote = some acc.data := by
  obtain ⟨hlen, hvote, hseat, -, -⟩ := readBallot_eq_ok h
  obtain ⟨n, hn⟩ := exists_seatByte (hseat htype)
  rw [htype] at hlen
  exact ⟨n, ⟨ballot.data, hlen⟩, hn.symm, rfl, hvote⟩

theorem Seating.actionReward (h : Seating s σ count)
    (hbal : readBallot table inv = .ok ballot) (htype : ballot.topic.type = .reward) :
    Seating (s.set (leftPad [0x52, ballot.topic.n]) ballot.data) σ count := by
  obtain ⟨-, -, -, hrew, -⟩ := readBallot_eq_ok hbal
  refine h.set_reward ?_
  rcases hrew htype with hn | hn
  · exact .inl (by rw [hn])
  · exact .inr (by rw [hn])

theorem Seating.run (h : Seating s σ (size σ)) (hvot : inv.VotesPlain) :
    ∃ σ', Seating (run table inv s) σ' (size σ') := by
  have hout := outcome_run table inv s
  generalize Govern.run table inv s = s' at hout ⊢
  cases hout with
  | unchanged => exact ⟨σ, h⟩
  | setup hnone _ =>
    rw [h.readInt_count] at hnone
    cases hnone
  | voted _ _ hrec => exact ⟨σ, h.of_sameTable (sameTable_recordVote hrec)⟩
  | rewarded hcast htype =>
    obtain ⟨-, hbal, votes, hrec, -⟩ := castVote_eq_ok hcast
    exact ⟨σ, (h.of_sameTable (sameTable_recordVote hrec)).actionReward hbal htype⟩
  | seated hcount hcast _ htype hseat =>
    obtain ⟨-, hbal, votes, hrec, -⟩ := castVote_eq_ok hcast
    obtain ⟨n, acc, hn, hdata, hvote⟩ := exists_of_seat hbal htype
    rw [h.readInt_count] at hcount
    cases hcount
    obtain ⟨σ', -, hσ'⟩ := (h.of_sameTable (sameTable_recordVote hrec)).actionSeat htype hn hdata
      (hvot acc hvote) hseat s
    exact ⟨σ', hσ'⟩

theorem run_empty (table : Table) (inv : Invocation) :
    run table inv (fun _ => none) = (fun _ => none) ∨
      ∃ exit, setup table (fun _ => none) = .ok exit ∧
        run table inv (fun _ => none) = exit.after fun _ => none := by
  have hout := outcome_run table inv fun _ => none
  generalize run table inv (fun _ => none) = s' at hout ⊢
  cases hout with
  | unchanged => exact .inl rfl
  | setup _ hset => exact .inr ⟨_, hset, rfl⟩
  | voted hmemb _ _ => exact absurd rfl hmemb
  | rewarded hcast _ => exact absurd rfl (castVote_eq_ok hcast).1
  | seated hcount _ _ _ _ => cases hcount

end

/-- A first table whose initial members repeat one byte. -/
def sampleTable (imc : UInt8) : Table where
  account := genesis
  initialMemberCount := some [imc]
  initialRewardRate := some (List.replicate 8 1)
  initialRewardDelay := some (List.replicate 8 1)
  initialSeat i := some (List.replicate 20 (i + 0xA0))

/-- An initial member of the table. -/
def sampleMember (i : UInt8) : AccountID := ⟨List.replicate 20 (i + 0xA0), rfl⟩

/-- An invocation by a member. -/
def sampleVote (i : UInt8) (topic : Blob) (vote : Option Blob) : Invocation where
  tt := 99
  account := sampleMember i
  destination := none
  topic := some topic
  layer := none
  vote := vote
  installedHook _ := none
  hookExists _ := true
  emitted := true

theorem sampleTable_isInitial
    (h : (sampleTable imc).IsInitial n acc) : acc = sampleMember (seatByte n) :=
  BaseUInt.ext (Option.some.inj h.2).symm

theorem sampleTable_distinct {m : Fin 20}
    (hn : (sampleTable imc).IsInitial n acc) (hm : (sampleTable imc).IsInitial m acc) : n = m := by
  have hdist : ∀ n m, sampleMember (seatByte n) = sampleMember (seatByte m) → n = m := by
    decide +kernel
  exact hdist n m ((sampleTable_isInitial hn).symm.trans (sampleTable_isInitial hm))

theorem sampleMember_plain (n : Fin 20) : Plain (sampleMember (seatByte n)) := by
  have hplain : ∀ n : Fin 20, (∀ m, memberKey (sampleMember (seatByte n)).data ≠ seatKey (seatByte m)) ∧
      memberKey (sampleMember (seatByte n)).data ∉
        [countOfMembersKey, leftPad [0x52, 0x52], leftPad [0x52, 0x44]] := by
    decide +kernel
  obtain ⟨hseat, hrest⟩ := hplain n
  simp only [mem_cons, not_mem_nil, or_false, not_or] at hrest
  exact ⟨hseat, hrest.1, not_or.mpr hrest.2⟩

theorem sampleTable_plain (h : (sampleTable imc).IsInitial n acc) : Plain acc := by
  rw [sampleTable_isInitial h]
  exact sampleMember_plain n

/-- **The members of a table**: over every sequence of invocations, the entries of seats and of
members are one partial bijection, and the member count is the number of seats taken. The initial
members are distinct, and no account voted for or initial has the key of something else. -/
theorem seating_runs {table : Table}
    (hdistinct : ∀ n m acc, table.IsInitial n acc → table.IsInitial m acc → n = m)
    (hplain : ∀ n acc, table.IsInitial n acc → Plain acc) (invs : List Invocation)
    (hvotes : ∀ inv ∈ invs, inv.VotesPlain) :
    runs table invs = (fun _ => none) ∨ ∃ σ, Seating (runs table invs) σ (size σ) := by
  induction invs using List.reverseRecOn with
  | nil => exact .inl rfl
  | append_singleton invs inv ih =>
    have hlast : runs table (invs ++ [inv]) = run table inv (runs table invs) := foldl_concat ..
    rw [hlast]
    rcases ih fun inv' hinv' => hvotes inv' (mem_append_left _ hinv') with hempty | ⟨σ, hσ⟩
    · rw [hempty]
      rcases run_empty table inv with hrun | ⟨exit, hsetup, hrun⟩
      · exact .inl hrun
      · rw [hrun]
        exact .inr (seating_setup hplain hdistinct hsetup)
    · exact .inr (hσ.run (hvotes inv (by simp)))

/-- Two of three members vacate the seat of the third. -/
def vacating : List Invocation :=
  [sampleVote 0 [] none, sampleVote 0 [0x53, 2] (some (List.replicate 20 0)),
    sampleVote 1 [0x53, 2] (some (List.replicate 20 0))]

/-- There are two members after the seat was vacated. -/
theorem seating_vacating : runs (sampleTable 3) vacating countOfMembersKey = some [2] ∧
    ∃ σ, Seating (runs (sampleTable 3) vacating) σ (size σ) := by
  have hcount : runs (sampleTable 3) vacating countOfMembersKey = some [2] := by decide +kernel
  refine ⟨hcount, (seating_runs (fun _ _ _ => sampleTable_distinct)
    (fun _ _ => sampleTable_plain) _ ?_).resolve_left fun hempty => ?_⟩
  · intro inv hinv acc hacc
    simp only [vacating, mem_cons, not_mem_nil, or_false] at hinv
    rcases hinv with rfl | rfl | rfl
    · cases hacc
    · exact .inl (BaseUInt.ext (Option.some.inj hacc).symm)
    · exact .inl (BaseUInt.ext (Option.some.inj hacc).symm)
  · rw [hempty] at hcount
    cases hcount

/-- Two members put the account whose identifier is one on seat 5. -/
def overwriting : List Invocation :=
  [sampleVote 0 [] none, sampleVote 0 [0x53, 5] (some (List.replicate 19 0 ++ [1])),
    sampleVote 1 [0x53, 5] (some (List.replicate 19 0 ++ [1]))]

/-- The entry of the new member has the key of seat 1, which loses its member. -/
theorem seat_overwritten :
    (∀ n m acc, (sampleTable 2).IsInitial n acc → (sampleTable 2).IsInitial m acc → n = m) ∧
    ¬ (runs (sampleTable 2) overwriting = (fun _ => none) ∨
      ∃ σ, Seating (runs (sampleTable 2) overwriting) σ (size σ)) := by
  have hseat : runs (sampleTable 2) overwriting (seatKey (seatByte 1)) = some [5] := by
    decide +kernel
  refine ⟨fun _ _ _ => sampleTable_distinct, ?_⟩
  rintro (hempty | ⟨σ, hσ⟩)
  · rw [hempty] at hseat
    cases hseat
  rw [hσ.seats 1] at hseat
  obtain ⟨acc, -, hdata⟩ := Option.map_eq_some_iff.mp hseat
  exact absurd (hdata ▸ acc.data_length) (by decide)

end Xahau.Govern
