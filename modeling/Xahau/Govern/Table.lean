import Xahau.Basics.Protocol
import Xahau.Data.Checked

/-! # The governance hook (`govern.c`)

A table has twenty seats, whose members vote on topics: who sits on a seat, which hooks are
installed, and the rate and the delay of rewards. All that the hook knows is in the states of its
account, with keys of 32 bytes, padded with zeros on the left. Buffers that are not written are
zero. -/

namespace Xahau.Govern

open Checked

/-- `SEAT_COUNT`. -/
def seatCount : Nat := 20

/-- `HOOK_MAX`. -/
def hookMax : UInt8 := 10

/-! ## States -/

/-- The states of the account, by their keys. -/
abbrev Store := UInt256 → Option Blob

/-- `make_state_key`: zero pad on the left. No key is longer than 32 bytes. -/
def leftPad (source : Blob) : UInt256 :=
  ⟨List.replicate (32 - (source.take 32).length) 0 ++ source.take 32, by
    rw [List.length_append, List.length_replicate, List.length_take]
    omega⟩

/-- `data_as_int64`: what is too big has no number. -/
def dataAsInt64 (data : Blob) : Option Nat :=
  let output := data.foldl (fun n b => n * 256 + b.toNat) 0
  if 8 < data.length ∨ 2 ^ 63 ≤ output then none else some output

namespace Store

section

variable (s : Store) (len : Nat) (key : UInt256)

/-- `state` with a buffer of `len` bytes: nothing if there is no entry that fits. -/
def read : Option Blob :=
  (s key).filter fun data => data.length ≤ len

/-- `state` without a buffer: nothing if the result is negative. -/
def readInt : Option Nat := (s key).bind dataAsInt64

/-- `state_set`: an entry without data is deleted. -/
def set (data : Blob) : Store :=
  Function.update s key (if data = [] then none else some data)

end

end Store

/-- The key of the member count, `"MC"`. -/
def countOfMembersKey : UInt256 := leftPad [0x4D, 0x43]

/-- The key of a seat: it has the member who occupies the seat. -/
def seatKey (n : UInt8) : UInt256 := leftPad [n]

/-- The key of a member: it has the number of the seat. -/
def memberKey (acc : Blob) : UInt256 := leftPad acc

/-! ## Topics -/

/-- What a vote is about. -/
inductive TopicType where
  | seat | hook | reward
  deriving DecidableEq

namespace TopicType

/-- The letters `S`, `H` and `R`. -/
def code : TopicType → UInt8
  | seat => 0x53
  | hook => 0x48
  | reward => 0x52

/-- The topic type with a letter. -/
def ofCode (t : UInt8) : Option TopicType :=
  if t = 0x53 then some seat else if t = 0x48 then some hook
  else if t = 0x52 then some reward else none

/-- `topic_size`: of account identifiers, hook hashes, and numbers. -/
def size : TopicType → Nat
  | seat => 20
  | hook => 32
  | reward => 8

/-- A buffer of 32 bytes with topic data at the end. -/
def buffer (t : TopicType) (data : Blob) : UInt256 :=
  ⟨(List.replicate (32 - t.size) 0 ++ data ++ List.replicate 32 0).take 32, by
    rw [List.length_take, List.length_append, List.length_replicate]
    omega⟩

end TopicType

/-- A topic, and the layer that the vote is intended for. -/
structure Topic where
  type : TopicType
  n : UInt8
  l : UInt8
  deriving DecidableEq

def voteKey (topic : Topic) (acc : AccountID) : UInt256 :=
  ⟨[0x56, topic.type.code, topic.n, topic.l] ++ List.replicate 8 0 ++ acc.data, by
    simp [acc.data_length]⟩

/-- The key of the votes for topic data, whose first bytes are overwritten. -/
def countKey (topic : Topic) (topicData : UInt256) : UInt256 :=
  ⟨[0x43, topic.type.code, topic.n, topic.l] ++ topicData.data.drop 4, by
    simp [topicData.data_length]⟩

/-- A vote: the topic, and as many bytes as the topic data has. -/
structure Ballot where
  topic : Topic
  data : Blob

/-- `topic_data`. -/
def Ballot.topicData (ballot : Ballot) : UInt256 := ballot.topic.type.buffer ballot.data

/-! ## Invocations -/

/-- The account of the first table. -/
def genesis : AccountID :=
  ⟨[0xB5, 0xF7, 0x62, 0x79, 0x8A, 0x53, 0xD5, 0x43, 0xA0, 0x14,
    0xCA, 0xF8, 0xB2, 0x97, 0xCF, 0xF8, 0xF2, 0xF9, 0x37, 0xE8], rfl⟩

/-- The account of the hook, and the parameters with which it was installed. -/
structure Table where
  account : AccountID
  /-- `IMC`. -/
  initialMemberCount : Option Blob
  /-- `IRR`. -/
  initialRewardRate : Option Blob
  /-- `IRD`. -/
  initialRewardDelay : Option Blob
  /-- `IS` with the number of a seat. -/
  initialSeat : UInt8 → Option Blob

/-- `is_L1_table`. -/
def Table.isL1Table (table : Table) : Bool := table.account = genesis

/-- A transaction for which the hook runs, and the answers of the ledger. -/
structure Invocation where
  /-- `otxn_type`. -/
  tt : Nat
  account : AccountID
  destination : Option AccountID
  /-- The parameter `T`. -/
  topic : Option Blob
  /-- The parameter `L`. -/
  layer : Option Blob
  /-- The parameter `V`. -/
  vote : Option Blob
  /-- The hash of the hook that is installed in a position. -/
  installedHook : UInt8 → Option UInt256
  /-- There is a hook definition with a hash. -/
  hookExists : UInt256 → Bool
  /-- `emit` returns the hash of the emitted transaction. -/
  emitted : Bool

/-- How the hook ends. -/
inductive Exit where
  /-- `DONE`: the states are kept. -/
  | accept (message : String) (s : Store)
  /-- `NOPE`: the states are as before. -/
  | rollback (message : String)

/-- The states after the hook has ended. -/
def Exit.after (s : Store) : Exit → Store
  | .accept _ s' => s'
  | .rollback _ => s

/-- How the hook ends, in the middle or after the last line. -/
def ended : Except Exit Exit → Exit
  | .ok exit => exit
  | .error exit => exit

/-- `ASSERT`. -/
def assert (condition : Prop) [Decidable condition] : Except Exit PUnit :=
  failIf (¬ condition) (.rollback "Govern: Assertion failed.")

/-! ## Setting up a table -/

/-- The loop that seats the initial members. -/
def seatMembers (table : Table) : List UInt8 → Store → Except Exit Store
  | [], s => .ok s
  | i :: is, s => do
    let acc := (table.initialSeat i).getD []
    failIf (acc.length ≠ 20)
      (.rollback "Governance: One or more initial member account ID's is missing")
    seatMembers table is ((s.set (seatKey i) acc).set (memberKey acc) [i])

/-- A parameter of at most eight bytes, in a number of eight bytes. -/
def rewardParam (param : Option Blob) (message : String) : Except Exit Blob :=
  match param with
  | none => .error (.rollback message)
  | some value => do
    failIf (8 < value.length) (.rollback message)
    .ok ((value ++ List.replicate 8 0).take 8)

section

variable (table : Table) (inv : Invocation) (s : Store)

/-- The reward rate and the reward delay that a first table starts with. -/
def setRewards : Except Exit Store := do
  let irr ← rewardParam table.initialRewardRate
    "Governance: Initial Reward Rate Parameter missing (IRR)."
  let ird ← rewardParam table.initialRewardDelay
    "Governance: Initial Reward Delay Parameter miss (IRD)."
  failIf (ird = List.replicate 8 0) (.rollback "Governance: Initial Reward Delay must be > 0.")
  .ok ((s.set (leftPad [0x52, 0x52]) irr).set (leftPad [0x52, 0x44]) ird)

/-- The initial execution. -/
def setup : Except Exit Exit :=
  match table.initialMemberCount with
  | some [imc] => do
    let s := s.set countOfMembersKey [imc]
    failIf (imc = 0) (.rollback "Governance: Initial Member Count must be > 0.")
    failIf (seatCount < imc.toNat)
      (.rollback "Governance: Initial Member Count must be <= Seat Count (20).")
    let s ← (if table.isL1Table then setRewards table s else .ok s : Except Exit Store)
    let s ← seatMembers table ((List.range imc.toNat).map UInt8.ofNat) s
    .ok (.accept "Governance: Setup completed successfully." s)
  | _ => .error (.rollback "Governance: Initial Member Count Parameter missing (IMC).")

/-! ## Voting -/

/-- The layer that a vote is intended for. -/
def readLayer : Except Exit UInt8 :=
  if table.isL1Table then .ok 1
  else
    match inv.layer with
    | some [l] => do
      failIf (l ≠ 1 ∧ l ≠ 2) (.rollback "Governance: Layer parameter must be '1' or '2'.")
      .ok l
    | _ => .error (.rollback "Governance: Missing L parameter. Which layer are you voting for?")

/-- The vote that the parameters of a transaction express. -/
def readBallot : Except Exit Ballot :=
  match inv.topic with
  | some [t, n] =>
    match TopicType.ofCode t with
    | none => .error (.rollback "Governance: Valid TOPIC must be specified as otxn parameter.")
    | some type => do
      failIf (type = .seat ∧ 19 < n)
        (.rollback "Governance: Valid seat topics are 0 through 19.")
      failIf (type = .hook ∧ hookMax < n)
        (.rollback "Governance: Valid hook topics are 0 through 9.")
      failIf (type = .reward ∧ n ≠ 0x52 ∧ n ≠ 0x44)
        (.rollback "Governance: Valid reward topics are R (rate) and D (delay).")
      let l ← readLayer table inv
      failIf (l = 2 ∧ type = .reward)
        (.rollback "Governance: L2s cannot vote on RR/RD at L2, did you mean to set L=1?")
      let data := inv.vote.getD []
      failIf (data.length ≠ type.size)
        (.rollback "Governance: Missing or incorrect size of VOTE data for TOPIC type.")
      .ok ⟨⟨type, n, l⟩, data⟩
  | _ => .error (.rollback "Governance: Valid TOPIC must be specified as otxn parameter.")

/-- Decrement the counter of the previous vote. -/
def withdraw (topic : Topic) (previous : Option Blob) (s : Store) : Except Exit Store :=
  match previous with
  | none => .ok s
  | some previousData => do
    let key := countKey topic (topic.type.buffer previousData)
    match s.read 1 key with
    | some [votes] => do
      assert (0 < votes)
      -- delete the state entry if votes hit zero
      .ok (s.set key (if votes - 1 = 0 then [] else [votes - 1]))
    | _ => .error (.rollback "Govern: Assertion failed.")

/-- Increment the counter of a vote. The new number of votes is returned too. -/
def count (ballot : Ballot) (s : Store) : Store × UInt8 :=
  let key := countKey ballot.topic ballot.topicData
  let votes := ((s.read 1 key).bind List.head?).getD 0 + 1
  (s.set key [votes], votes)

def recordVote (acc : AccountID) (ballot : Ballot) : Except Exit (Store × UInt8) := do
  let previous := s.read ballot.topic.type.size (voteKey ballot.topic acc)
  failIf (previous = some ballot.data)
    (.accept "Governance: Your vote is already cast this way for this topic." s)
  let s ← withdraw ballot.topic previous (s.set (voteKey ballot.topic acc) ballot.data)
  .ok (count ballot s)

/-- `q80`: four fifths of the members, rounded down, but at least two. -/
def q80 (memberCount : Nat) : Nat := max 2 (memberCount * 4 / 5)

/-- `q51`: 51 % of the members, rounded down, but at least two. -/
def q51 (memberCount : Nat) : Nat := max 2 (memberCount * 51 / 100)

/-- The number of votes with which a topic is actioned. -/
def threshold (memberCount : Nat) (topic : Topic) : Nat :=
  if table.isL1Table = true ∨ topic.l = 2 then
    if topic.type = .seat then q80 memberCount else memberCount
  else q51 memberCount

/-- The processing of a member's vote. It is returned if the topic is to be actioned. -/
def castVote (memberCount : Nat) (s : Store) :
    Except Exit (Ballot × Store) := do
  failIf (s.readInt (memberKey inv.account.data) = none)
    (.rollback "Governance: You are not currently a governance member at this table.")
  let ballot ← readBallot table inv
  let (s, votes) ← recordVote s inv.account ballot
  failIf (votes.toNat < threshold table memberCount ballot.topic)
    (.accept
      (if table.isL1Table = true ∨ ballot.topic.l = 2 then
        "Governance: Vote record. Not yet enough votes to action."
      else "Governance: Not yet enough votes to action L1 vote...") s)
  .ok (ballot, s)

/-! ## Actions -/

/-- Action a topic about rewards. -/
def actionReward (ballot : Ballot) (s : Store) : Exit :=
  .accept
    (if ballot.topic.n = 0x52 then "Governance: Reward rate change actioned!"
    else "Governance: Reward delay change actioned!")
    (s.set (leftPad [0x52, ballot.topic.n]) ballot.data)

/-- Action a topic about hooks: it is emitted to the account of the table. -/
def actionHook (ballot : Ballot) (s : Store) : Exit :=
  if inv.installedHook ballot.topic.n = some ballot.topicData then
    .accept "Goverance: Target hook is already the same as actioned hook." s
  else if ballot.topicData ≠ .zero ∧ inv.hookExists ballot.topicData = false then
    .rollback "Goverance: Hook Hash doesn't exist on ledger while actioning hook."
  else if inv.emitted = false then .rollback "Governance: Emit failed during hook actioning."
  else .accept "Governance: Hook actioned." s

section

variable (previousMember : AccountID) (s : Store) (i : Nat)

/-- The topic that the loop over a removed member's votes looks at in a round. -/
def collectedTopic : UInt8 × UInt8 :=
  (if i < 2 then 0x52 else if i < 12 then 0x48 else 0x53,
    if i = 0 then 0x52 else if i = 1 then 0x44
    else if i < 12 then UInt8.ofNat (i - 2) else UInt8.ofNat (i - 12))

/-- The key with which the loop looks for a vote: the layer is not written. -/
def collectedKey : UInt256 :=
  ⟨[0x56, (collectedTopic i).1, (collectedTopic i).2, 0] ++ List.replicate 8 0 ++
    previousMember.data, by simp [previousMember.data_length]⟩

/-- The counter to decrement: only the first three bytes are overwritten. -/
def collectedCountKey (vote : UInt256) (i : Nat) : UInt256 :=
  ⟨[0x43, (collectedTopic i).1, (collectedTopic i).2] ++ vote.data.drop 3, by
    simp [vote.data_length]⟩

/-- One round of the loop that collects the votes of a member who is removed. -/
def collectVote : Store :=
  match s.read 32 (collectedKey previousMember i) with
  | none => s
  | some data =>
    if h : data.length = 32 then
      let key := collectedCountKey ⟨data, h⟩ i
      let s :=
        match s.read 1 key with
        | some [voteCount] => s.set key (if voteCount ≤ 1 then [] else [voteCount - 1])
        | _ => s
      s.set (collectedKey previousMember i) []
    else s

/-- We need to garbage collect all their votes. -/
def collectVotes : Store :=
  (List.range' 1 31).foldl (collectVote previousMember) s

end

/-- The member count after a seat was filled, vacated or taken over. -/
def adjustedCount (previousPresent topicDataZero existingMemberMoving : Bool) (memberCount : Nat) :
    Nat :=
  match previousPresent, topicDataZero, existingMemberMoving with
  | true, false, true => memberCount - 1
  | true, true, false => memberCount - 1
  | false, false, false => memberCount + 1
  | _, _, _ => memberCount

/-- Unseat the member of a seat. -/
def unseat (n : UInt8) (previous : Option AccountID) (s : Store) : Store :=
  match previous with
  | none => s
  | some previousMember =>
    ((collectVotes previousMember s).set (seatKey n) []).set (memberKey previousMember.data) []

/-- Take a member from the seat that they have, to put them on another one. -/
def leaveSeat (existingMember : Option Nat) (data : Blob) (s : Store) : Store :=
  match existingMember with
  | none => s
  | some m => (s.set (seatKey (UInt8.ofNat m)) []).set (memberKey data) []

/-- Action a topic about a seat: add or change a member. -/
def actionSeat (ballot : Ballot) (memberCount : Nat) (s : Store) : Except Exit Exit := do
  let n := ballot.topic.n
  let entry := (s.read 20 (seatKey n)).getD []
  let previous : Option AccountID := if h : entry.length = 20 then some ⟨entry, h⟩ else none
  failIf ((entry ++ List.replicate 20 0).take 20 = ballot.data)
    (.accept "Governance: Actioning seat change, but seat already contains the new member." s)
  let existingMember := s.readInt (memberKey ballot.data)
  let topicDataZero := decide (ballot.topicData = .zero)
  assert (¬ (topicDataZero = true ∧ existingMember.isSome = true))
  let memberCount := adjustedCount previous.isSome topicDataZero existingMember.isSome memberCount
  -- just bail out if the second last member is being removed
  assert (1 < memberCount)
  let s := s.set countOfMembersKey [UInt8.ofNat memberCount]
  let s := unseat n previous (leaveSeat existingMember ballot.data s)
  .ok (.accept "Governance: Action member change."
    (if topicDataZero then s
    else (s.set (seatKey n) ballot.data).set (memberKey ballot.data) [n]))

/-- Action a topic. A second table sends its vote to the first one. -/
def action (memberCount : Nat) (ballot : Ballot) (s : Store) : Except Exit Exit :=
  if ballot.topic.l = 1 ∧ table.isL1Table = false then
    if inv.emitted then .ok (.accept "Governance: Successfully emitted L1 vote." s)
    else .ok (.rollback "Governance: L1 vote emission failed.")
  else
    match ballot.topic.type with
    | .reward => .ok (actionReward ballot s)
    | .hook => .ok (actionHook inv ballot s)
    | .seat => actionSeat ballot memberCount s

/-! ## The hook -/

/-- The transactions that the hook lets pass. -/
def passing : Option String :=
  if inv.tt ≠ 99 then
    some "Governance: Passing non-Invoke txn. HookOn should be changed to avoid this."
  else if inv.account = table.account ∧ ∃ acc ∈ inv.destination, acc ≠ table.account then
    some "Goverance: Passing outgoing txn."
  else none

/-- The hook sets up the table, and then members vote. All that is written with the key of the
member count has one byte. -/
def hook : Except Exit Exit :=
  match passing table inv with
  | some message => .ok (.accept message s)
  | none =>
    match s.readInt countOfMembersKey with
    | none => setup table s
    | some memberCount => do
      let (ballot, s) ← castVote table inv memberCount s
      action table inv memberCount ballot s

/-- The states after the hook has run. -/
def run : Store :=
  (ended (hook table inv s)).after s

end

/-- The states after some invocations of a hook that was just installed. -/
def runs (table : Table) (invs : List Invocation) : Store :=
  invs.foldl (fun s inv => run table inv s) fun _ => none

end Xahau.Govern
