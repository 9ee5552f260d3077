import Mathlib

/-! # Radix hash trees and their openings

A **hash tree** stores byte strings at its leaves; an inner node is hashed over the fixed-width
digests of its branches, under a prefix of its own. An **opening** is what a prover reveals of a
tree: at every position the digest, or the branches of the node. By
`Tree.mem_leafDigests_of_opening` a leaf digest that an opening reveals is that of a leaf of every
tree with the same root, if the hash has no collision among the messages that were hashed. Only a
list of messages is concerned, so a function into fixed-width digests can satisfy this. -/

namespace HashTree

open List

/-- How a family of hash trees writes and hashes its digests. -/
structure Scheme (δ : Type*) where
  /-- The hash function. -/
  hash : List UInt8 → δ
  /-- The digest of an absent branch. -/
  zero : δ
  /-- A digest as the bytes that enter the hash of its parent. -/
  bytes : δ → List UInt8
  /-- The width of a digest in bytes. -/
  width : Nat
  /-- The bytes hashed before the item of a leaf. -/
  leafTag : List UInt8
  /-- The bytes hashed before the branch digests of an inner node. -/
  innerTag : List UInt8
  width_pos : 0 < width
  bytes_length : ∀ d, (bytes d).length = width
  bytes_injective : Function.Injective bytes
  tag_length : leafTag.length = innerTag.length
  tag_ne : leafTag ≠ innerTag

/-- A hash tree with `n` branches to a node. -/
inductive Tree (n : Nat) : Type where
  /-- An absent branch. -/
  | empty : Tree n
  /-- A leaf holding an item. -/
  | leaf (item : List UInt8) : Tree n
  /-- An inner node. -/
  | inner (branches : Fin n → Tree n) : Tree n

/-- What is revealed of a hash tree. A digest that could not be read feeds nothing to its parent. -/
inductive Opening (δ : Type*) (n : Nat) : Type _ where
  /-- A position where only a digest is given. -/
  | digest (value : Option δ) : Opening δ n
  /-- A position where the branches are given. -/
  | node (branches : Fin n → Opening δ n) : Opening δ n

variable {δ : Type*} {n : Nat} (S : Scheme δ)

namespace Scheme

section

variable (item : List UInt8) (feed : Fin n → List UInt8)

def leafMessage : List UInt8 := S.leafTag ++ item

def leafDigest : δ := S.hash (S.leafMessage item)

/-- The message hashed for an inner node, from what each branch feeds. -/
def innerMessage : List UInt8 :=
  S.innerTag ++ (List.finRange n).flatMap feed

/-- No two messages collide, and none hashes to the digest of an absent branch. -/
structure CollisionFree (messages : List (List UInt8)) : Prop where
  injOn : ∀ x ∈ messages, ∀ y ∈ messages, S.hash x = S.hash y → x = y
  ne_zero : ∀ x ∈ messages, S.hash x ≠ S.zero

theorem CollisionFree.mono {S : Scheme δ} {ms ms' : List (List UInt8)} (h : S.CollisionFree ms)
    (hsub : ∀ x ∈ ms', x ∈ ms) : S.CollisionFree ms' :=
  ⟨fun x hx y hy => h.injOn x (hsub x hx) y (hsub y hy), fun x hx => h.ne_zero x (hsub x hx)⟩

/-- A leaf and an inner node are never hashed over the same message. -/
theorem leafMessage_ne_innerMessage : S.leafMessage item ≠ S.innerMessage feed := by
  intro h
  exact S.tag_ne (append_inj_left h S.tag_length)

end

end Scheme

namespace Tree

/-- Whether a branch is absent. -/
def isEmpty : Tree n → Bool
  | .empty => true
  | _ => false

/-- The digest of a tree: that of an absent one for an inner node without branches. -/
def digest : Tree n → δ
  | .empty => S.zero
  | .leaf item => S.leafDigest item
  | .inner branches =>
    if ∀ i, (branches i).isEmpty = true then S.zero
    else S.hash (S.innerMessage fun i => S.bytes (digest (branches i)))

/-- The messages hashed to compute the digest of a tree. -/
def messages : Tree n → List (List UInt8)
  | .empty => []
  | .leaf item => [S.leafMessage item]
  | .inner branches =>
    (if ∀ i, (branches i).isEmpty = true then []
      else [S.innerMessage fun i => S.bytes ((branches i).digest S)]) ++
    (List.finRange n).flatMap fun i => messages (branches i)

/-- The digests of the leaves of a tree. -/
def leafDigests : Tree n → List δ
  | .empty => []
  | .leaf item => [S.leafDigest item]
  | .inner branches => (List.finRange n).flatMap fun i => leafDigests (branches i)

variable {i : Fin n} {branches : Fin n → Tree n}

/-- An inner node with a branch is hashed over what its branches feed. -/
theorem innerMessage_mem_messages (h : ¬ ∀ i, (branches i).isEmpty = true) :
    S.innerMessage (fun i => S.bytes ((branches i).digest S)) ∈
      (Tree.inner branches).messages S := by
  rw [messages, if_neg h]
  exact mem_append_left _ (mem_singleton.mpr rfl)

end Tree

namespace Opening

/-- What an opening feeds to the hash of its parent. -/
def feed : Opening δ n → List UInt8
  | .digest none => []
  | .digest (some d) => S.bytes d
  | .node branches => S.bytes (S.hash (S.innerMessage fun i => feed (branches i)))

/-- The digests an opening reveals. -/
def digests : Opening δ n → List δ
  | .digest value => value.toList
  | .node branches => (List.finRange n).flatMap fun i => digests (branches i)

/-- The messages hashed to compute what an opening feeds. -/
def messages : Opening δ n → List (List UInt8)
  | .digest _ => []
  | .node branches =>
    S.innerMessage (fun i => (branches i).feed S) ::
      (List.finRange n).flatMap fun i => messages (branches i)

/-- The digests a position and those below it feed, each to the hash of its parent. -/
def values : Opening δ n → List δ
  | .digest value => value.toList
  | .node branches =>
    S.hash (S.innerMessage fun i => (branches i).feed S) ::
      (List.finRange n).flatMap fun i => values (branches i)

/-- The digests that enter the root of an opening. -/
def fed : Opening δ n → List δ
  | .digest _ => []
  | .node branches => (List.finRange n).flatMap fun i => (branches i).values S

theorem feed_length_le (o : Opening δ n) : (o.feed S).length ≤ S.width := by
  cases o with
  | digest value =>
    cases value with
    | none => simp [feed]
    | some d => simp [feed, S.bytes_length]
  | node branches => simp [feed, S.bytes_length]

section

variable {o : Opening δ n} {d : δ}

theorem mem_values_of_mem_digests (h : d ∈ o.digests) : d ∈ o.values S := by
  induction o with
  | digest value => exact h
  | node branches ih =>
    obtain ⟨i, hi, hd⟩ := mem_flatMap.mp h
    exact mem_cons_of_mem _ (mem_flatMap.mpr ⟨i, hi, ih i hd⟩)

theorem mem_fed_of_mem_digests {branches : Fin n → Opening δ n} {d : δ}
    (h : d ∈ (Opening.node branches).digests) : d ∈ (Opening.node branches).fed S := by
  obtain ⟨i, hi, hd⟩ := mem_flatMap.mp h
  exact mem_flatMap.mpr ⟨i, hi, mem_values_of_mem_digests S hd⟩

theorem mem_messages_node {branches : Fin n → Opening δ n} {m : List UInt8} {i : Fin n}
    (h : m ∈ (branches i).messages S) : m ∈ (Opening.node branches).messages S :=
  mem_cons_of_mem _ (mem_flatMap.mpr ⟨i, mem_finRange i, h⟩)

theorem mem_digests_or_of_mem_values (h : d ∈ o.values S) :
    d ∈ o.digests ∨
      ∃ feed : Fin n → List UInt8,
        S.innerMessage feed ∈ o.messages S ∧ d = S.hash (S.innerMessage feed) := by
  induction o with
  | digest value => exact .inl h
  | node branches ih =>
    rcases mem_cons.mp h with rfl | h
    · exact .inr ⟨_, mem_cons_self .., rfl⟩
    obtain ⟨i, hi, hd⟩ := mem_flatMap.mp h
    rcases ih i hd with hdig | ⟨feed, hmem, rfl⟩
    · exact .inl (mem_flatMap.mpr ⟨i, hi, hdig⟩)
    · exact .inr ⟨feed, mem_messages_node S hmem, rfl⟩

theorem mem_values_of_mem_fed (h : d ∈ o.fed S) : d ∈ o.values S := by
  cases o with
  | digest value => simp [fed] at h
  | node branches => exact mem_cons_of_mem _ h

end

end Opening

/-! ## Binding of an opening to the trees with its root -/

section

variable {α : Type*} (w : Nat) (f g : α → List UInt8) (hf : ∀ a, (f a).length ≤ w)

include hf

/-- A concatenation of pieces of length at most `w` is at most `w` for each piece. -/
theorem length_flatMap_le (l : List α) : (l.flatMap f).length ≤ l.length * w := by
  induction l with
  | nil => simp
  | cons a l ih =>
    rw [flatMap_cons, length_append, length_cons, Nat.succ_mul]
    have := hf a
    omega

/-- Pieces of length at most `w` with the bytes of pieces of length `w` are the same pieces. -/
theorem eq_of_flatMap_eq (hg : ∀ a, (g a).length = w) (l : List α) (h : l.flatMap f = l.flatMap g) :
    ∀ a ∈ l, f a = g a := by
  induction l with
  | nil => simp
  | cons a l ih =>
    have hlen : (l.flatMap g).length = l.length * w := by
      simp [length_flatMap, hg]
    rw [flatMap_cons, flatMap_cons] at h
    -- the tails are too short to make up for a short first piece
    have hfa : (f a).length = (g a).length := by
      have h₁ := congrArg List.length h
      rw [length_append, length_append, hlen, hg a] at h₁
      have h₂ := length_flatMap_le w f hf l
      have h₃ := hf a
      rw [hg a]
      omega
    obtain ⟨hhead, htail⟩ := append_inj h hfa
    intro b hb
    rcases mem_cons.mp hb with rfl | hb
    · exact hhead
    · exact ih htail b hb

end

/-- The messages at stake when an opening is compared with a tree about a leaf. -/
def comparedMessages (o : Opening δ n) (t : Tree n) (item : List UInt8) : List (List UInt8) :=
  S.leafMessage item :: (o.messages S ++ t.messages S)

variable {S} {item : List UInt8} {t : Tree n}

/-- A tree whose digest is a leaf digest is that leaf, up to the digest. -/
theorem Tree.mem_leafDigests_of_digest_eq
    (hcf : S.CollisionFree (S.leafMessage item :: t.messages S))
    (h : t.digest S = S.leafDigest item) : S.leafDigest item ∈ t.leafDigests S := by
  have hne : S.leafDigest item ≠ S.zero := hcf.ne_zero _ (mem_cons_self ..)
  cases t with
  | empty => exact absurd h.symm hne
  | leaf item' => rw [← h]; exact mem_singleton.mpr rfl
  | inner branches =>
    rw [Tree.digest] at h
    split at h
    · exact absurd h.symm hne
    rename_i hemp
    have hmem := mem_cons_of_mem (S.leafMessage item)
      (Tree.innerMessage_mem_messages S hemp)
    have hmsg := hcf.injOn _ (mem_cons_self ..) _ hmem h.symm
    exact absurd hmsg (S.leafMessage_ne_innerMessage item _)

/-- A tree with the digest of an opened node is an inner node whose branches feed the same. -/
theorem Tree.eq_inner_of_digest_eq {opened : Fin n → Opening δ n}
    (hcf : S.CollisionFree ((Opening.node opened).messages S ++ t.messages S))
    (h : t.digest S = S.hash (S.innerMessage fun i => (opened i).feed S)) :
    ∃ branches, t = .inner branches ∧ ∀ i, (opened i).feed S = S.bytes ((branches i).digest S) := by
  have hnode : S.innerMessage (fun i => (opened i).feed S) ∈
      (Opening.node opened).messages S ++ t.messages S :=
    mem_append_left _ (mem_cons_self ..)
  cases t with
  | empty => exact absurd h.symm (hcf.ne_zero _ hnode)
  | leaf item =>
    have hmem : S.leafMessage item ∈
        (Opening.node opened).messages S ++ (Tree.leaf item : Tree n).messages S :=
      mem_append_right _ (mem_cons_self ..)
    exact absurd (hcf.injOn _ hmem _ hnode h) (S.leafMessage_ne_innerMessage item _)
  | inner branches =>
    rw [Tree.digest] at h
    split at h
    · exact absurd h.symm (hcf.ne_zero _ hnode)
    rename_i hemp
    refine ⟨branches, rfl, fun i => ?_⟩
    have hmem := mem_append_right ((Opening.node opened).messages S)
      (Tree.innerMessage_mem_messages S hemp)
    have hmsg := hcf.injOn _ hmem _ hnode h
    have hfeed := append_cancel_left hmsg.symm
    exact eq_of_flatMap_eq S.width _ _ (fun i => (opened i).feed_length_le S)
      (fun i => S.bytes_length _) _ hfeed i (mem_finRange i)

section

variable {o : Opening δ n} (hcf : S.CollisionFree (comparedMessages S o t item))
  (hroot : o.feed S = S.bytes (t.digest S))

include hcf hroot

/-- **An opening binds its leaf digests.** If it feeds the digest of a tree and reveals that of a
leaf, the tree has the leaf, unless the hash collides on the messages. -/
theorem Tree.mem_leafDigests_of_opening (hd : S.leafDigest item ∈ o.digests) :
    S.leafDigest item ∈ t.leafDigests S := by
  induction o generalizing t with
  | digest value =>
    obtain rfl : value = some (S.leafDigest item) := by
      cases value with
      | none => simp [Opening.digests] at hd
      | some d => simpa [Opening.digests, eq_comm] using hd
    have heq : t.digest S = S.leafDigest item := S.bytes_injective hroot.symm
    exact Tree.mem_leafDigests_of_digest_eq
      (hcf.mono fun x hx => by simpa [comparedMessages, Opening.messages] using hx) heq
  | node opened ih =>
    have heq : t.digest S = S.hash (S.innerMessage fun i => (opened i).feed S) :=
      S.bytes_injective hroot.symm
    obtain ⟨branches, rfl, hfeed⟩ := Tree.eq_inner_of_digest_eq
      (hcf.mono fun x hx => mem_cons_of_mem _ hx) heq
    obtain ⟨i, -, hi⟩ := mem_flatMap.mp hd
    refine mem_flatMap.mpr ⟨i, mem_finRange i, ih i (hcf.mono fun x hx => ?_) (hfeed i) hi⟩
    rcases mem_cons.mp hx with rfl | hx
    · exact mem_cons_self ..
    refine mem_cons_of_mem _ ?_
    rcases mem_append.mp hx with hx | hx
    · exact mem_append_left _ (Opening.mem_messages_node S hx)
    · exact mem_append_right _ (mem_append_right _ (mem_flatMap.mpr ⟨i, mem_finRange i, hx⟩))

/-- **A leaf digest that enters the root is a leaf**: inner nodes have another prefix. -/
theorem Tree.mem_leafDigests_of_mem_fed (hd : S.leafDigest item ∈ o.fed S) :
    S.leafDigest item ∈ t.leafDigests S := by
  rcases o.mem_digests_or_of_mem_values S (o.mem_values_of_mem_fed S hd) with hd | ⟨feed, hmem, heq⟩
  · exact Tree.mem_leafDigests_of_opening hcf hroot hd
  have hmem' := mem_cons_of_mem (S.leafMessage item)
    (mem_append_left (t.messages S) hmem)
  exact absurd (hcf.injOn _ (mem_cons_self ..) _ hmem' heq)
    (S.leafMessage_ne_innerMessage item feed)

end

end HashTree
