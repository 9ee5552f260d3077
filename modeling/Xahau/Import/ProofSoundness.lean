import Xahau.Import.Proof

/-! # What a transaction proof proves

A proof in an accepted shape is an opening of a hash tree (`openingOf`), whose root is what
`hashProof` computes (`feed_openingOf`). A leaf hash that the opening reveals is a leaf of every
tree with that root. `proofContains` also compares the `hash` field of nodes with children, which
`hashProof` never reads (`innerHashes`). The proof is sound exactly as far as those fields repeat
hashes that are fed to the root. -/

namespace Xahau.Import

open HashTree List

variable {proof : Json} {members : List (String × Json)} {entries : List Json} {levels : Nat}

/-! ## The two accepted shapes -/

/-- The list form: arrays of sixteen strings or arrays. -/
inductive ListForm : Json → Prop
  | node (entries : List Json) (length_eq : entries.length = 16)
      (below : ∀ entry ∈ entries, entry.isString = false → ListForm entry) :
      ListForm (.arr entries)

/-- The tree form: nodes with a text for a hash and an object for children. -/
inductive TreeForm : Json → Prop
  | node (members : List (String × Json))
      (hash : ((Json.obj members).get "hash").isString = true)
      (children : ((Json.obj members).get "children").isObject = true)
      (below : ∀ x, ((Json.obj members).get "children").isMember (nibble x) = true →
        TreeForm (((Json.obj members).get "children").get (nibble x))) :
      TreeForm (.obj members)

theorem listForm_of_syntaxCheckProofFrom
    (h : syntaxCheckProofFrom levels (.arr entries) = true) : ListForm (.arr entries) := by
  induction levels generalizing entries with
  | zero => simp [syntaxCheckProofFrom] at h
  | succ levels ih =>
    simp only [syntaxCheckProofFrom, Bool.and_eq_true, beq_iff_eq, all_eq_true] at h
    obtain ⟨hlen, hall⟩ := h
    refine .node entries hlen fun entry hmem hstr => ?_
    have hent := hall entry hmem
    rw [hstr] at hent
    cases entry with
    | arr below => exact ih (by simpa [Json.isArray] using hent)
    | _ => simp [Json.isArray] at hent

theorem treeForm_of_syntaxCheckProofFrom
    (hlev : levels ≤ 64) (hnode : isTreeNode (.obj members) = true)
    (h : syntaxCheckProofFrom levels ((Json.obj members).get "children") = true) :
    TreeForm (.obj members) := by
  induction levels generalizing members with
  | zero => simp [syntaxCheckProofFrom] at h
  | succ levels ih =>
    simp only [isTreeNode, Bool.and_eq_true] at hnode
    obtain ⟨⟨⟨⟨hhash, -⟩, -⟩, -⟩, hobj⟩ := hnode
    refine .node members hhash hobj fun x hx => ?_
    obtain ⟨children, hchi⟩ := Json.isObject_iff.mp hobj
    rw [hchi] at h hx ⊢
    have hroot : levels ≠ 64 := by omega
    simp only [syntaxCheckProofFrom, if_neg hroot, all_eq_true, Bool.and_eq_true] at h
    obtain ⟨⟨⟨-, hchil⟩, hchild⟩, hbel⟩ := h _ (Json.mem_getMemberNames.mpr hx)
    obtain ⟨child, heq⟩ := Json.isObject_iff.mp hchil
    rw [heq] at hchild hbel ⊢
    exact ih (by omega) hchild hbel

theorem forms_of_syntaxCheckProof (h : syntaxCheckProof proof = true) :
    ListForm proof ∨ TreeForm proof := by
  cases proof with
  | arr entries => exact .inl (listForm_of_syntaxCheckProofFrom h)
  | obj members =>
    rw [syntaxCheckProof, syntaxCheckProofFrom, if_pos rfl, Bool.and_eq_true] at h
    exact .inr (treeForm_of_syntaxCheckProofFrom (Nat.le_refl 64) h.1 h.2)
  | _ => simp [syntaxCheckProof, syntaxCheckProofFrom] at h

/-! ## The opening a proof stands for -/

/-- The opening that a proof reveals, with `levels` left. -/
def openingOfFrom : (levels : Nat) → Json → Opening UInt256 16
  | 0, _ => .digest (some BaseUInt.zero)
  | levels + 1, .arr entries => .node fun x =>
    let entry := entries.getD x .null
    if entry.isString then .digest (BaseUInt.parseHex entry.asString)
    else openingOfFrom levels entry
  | levels + 1, .obj members => .node fun x =>
    let children := (Json.obj members).get "children"
    let child := children.get (nibble x)
    if !children.isMember (nibble x) then .digest (some BaseUInt.zero)
    else if (child.get "children").size = 0 then
      .digest (BaseUInt.parseHex (child.get "hash").asString)
    else openingOfFrom levels child
  | _ + 1, _ => .digest (some BaseUInt.zero)

/-- The opening that a proof reveals of the transaction tree. -/
def openingOf (proof : Json) : Opening UInt256 16 := openingOfFrom 33 proof

section

variable (sha512Half : List UInt8 → UInt256)

/-- The hashes fed into the root: those read in the proof and those of nodes below the root. -/
def fedHashes (proof : Json) : List UInt256 :=
  (openingOf proof).fed (txScheme sha512Half)

/-- The `hash` fields of nodes with children, which `proofContains` compares and `hashProof` does
not read. -/
def innerHashesFrom : (levels : Nat) → Json → List String
  | 0, _ => []
  | levels + 1, .obj members => (List.finRange 16).flatMap fun x =>
    let child := ((Json.obj members).get "children").get (nibble x)
    if (child.get "children").size = 0 then []
    else (child.get "hash").asString :: innerHashesFrom levels child
  | _ + 1, _ => []

/-- The `hash` fields of the nodes with children that `proofContains` reaches. -/
def innerHashes (proof : Json) : List String := innerHashesFrom 33 proof

theorem innerHashesFrom_of_listForm (h : ListForm proof) : innerHashesFrom levels proof = [] := by
  rcases h with ⟨entries, _, _⟩
  cases levels <;> rfl

theorem feed_digest_parseHex (text : String) :
    (Opening.digest (BaseUInt.parseHex text) : Opening UInt256 16).feed (txScheme sha512Half)
      = feedText text := by
  rw [feedText]
  cases (BaseUInt.parseHex text : Option UInt256) with
  | none => rfl
  | some hash => rfl

theorem getD_mem_entries (hlen : entries.length = 16) (x : Fin 16) :
    entries.getD x .null ∈ entries := by
  rw [getD_eq_getElem _ _ (by omega)]
  exact getElem_mem _

theorem flatMap_eq_finRange {α : Type*} (hlen : entries.length = 16) (f : Json → List α) :
    entries.flatMap f = (List.finRange 16).flatMap fun x : Fin 16 => f (entries.getD x .null) := by
  have hmap : entries = (List.finRange 16).map fun x : Fin 16 => entries.getD x .null := by
    apply ext_getElem
    · simp [hlen]
    · intro i h₁ h₂
      simp [h₁]
  conv_lhs => rw [hmap]
  rw [flatMap_map]

/-- **The root of a proof is the root of its opening.** -/
theorem feed_openingOfFrom (levels : Nat) (h : ListForm proof ∨ TreeForm proof) :
    (openingOfFrom levels proof).feed (txScheme sha512Half)
      = (hashProofFrom sha512Half levels proof).data := by
  induction levels generalizing proof with
  | zero => rfl
  | succ levels ih =>
    rcases h with ⟨entries, hlen, hbel⟩ | ⟨members, hhash, hchi, hbel⟩
    · rw [openingOfFrom, hashProofFrom, flatMap_eq_finRange hlen]
      refine congrArg (fun m => (sha512Half (HashPrefix.innerNode.bytes ++ m)).data) ?_
      refine flatMap_congr fun x _ => ?_
      by_cases hs : (entries.getD x .null).isString = true
      · simp only [hs, if_true]
        exact feed_digest_parseHex sha512Half _
      · simp only [hs]
        exact ih (.inl (hbel _ (getD_mem_entries hlen x) (by simpa using hs)))
    · rw [openingOfFrom, hashProofFrom]
      refine congrArg (fun m => (sha512Half (HashPrefix.innerNode.bytes ++ m)).data) ?_
      refine flatMap_congr fun x _ => ?_
      by_cases hm : ((Json.obj members).get "children").isMember (nibble x) = true
      · simp only [hm, Bool.not_true, Bool.false_eq_true, if_false]
        by_cases hsize : ((((Json.obj members).get "children").get (nibble x)).get
            "children").size = 0
        · simp only [hsize, if_true]
          exact feed_digest_parseHex sha512Half _
        · simp only [hsize, if_false]
          exact ih (.inr (hbel x hm))
      · simp only [hm, Bool.not_false, if_true]
        rfl

end

/-! ## Where `proofContains` finds a hash -/

@[simp] theorem proofContainsFrom_str (levels : Nat) (text hash : String) :
    proofContainsFrom levels (.str text) hash = false := by
  cases levels <;> rfl

theorem proofContainsFrom_arr (h : ListForm (.arr entries)) (hash : String) :
    proofContainsFrom (levels + 1) (.arr entries) hash = true ↔
      ∃ x : Fin 16, entries.getD x .null = .str hash ∨
        ((entries.getD x .null).isString = false ∧
          proofContainsFrom levels (entries.getD x .null) hash = true) := by
  obtain ⟨_, hlen, hbel⟩ := h
  have hmemb : (Json.arr entries).isMember "children" = false := rfl
  simp only [proofContainsFrom, hmemb, Json.isObject, Json.isArray, Json.elem, Bool.not_false,
    Bool.not_true, Bool.and_false, Bool.false_eq_true, if_false, any_eq_true,
    mem_finRange, true_and]
  refine exists_congr fun x => ?_
  have hform := hbel _ (getD_mem_entries hlen x)
  generalize entries.getD x .null = entry at hform ⊢
  cases entry with
  | str text => simp [Json.isNull, Json.isText, Json.isString]
  | arr below => simp [Json.isNull, Json.isText, Json.isString]
  | _ => exact absurd (hform rfl) (by rintro ⟨⟩)

theorem proofContainsFrom_obj (h : TreeForm (.obj members)) (hash : String) :
    proofContainsFrom (levels + 1) (.obj members) hash = true ↔
      ∃ x, ((Json.obj members).get "children").isMember (nibble x) = true ∧
        (((((Json.obj members).get "children").get (nibble x)).get "hash").asString = hash ∨
          proofContainsFrom levels (((Json.obj members).get "children").get (nibble x)) hash
            = true) := by
  obtain ⟨_, -, hchi, hbel⟩ := h
  have hmembe : (Json.obj members).isMember "children" = true := by
    refine Json.isMember_of_get_ne_null fun hnull => ?_
    simp [hnull, Json.isObject] at hchi
  have hobj : (Json.obj members).isObject = true := rfl
  simp only [proofContainsFrom, hmembe, hobj, hchi, Bool.not_true, Bool.false_and,
    Bool.false_eq_true, if_false, if_true, any_eq_true, mem_finRange, true_and]
  refine exists_congr fun x => ?_
  by_cases hm : ((Json.obj members).get "children").isMember (nibble x) = true
  · have hform := hbel x hm
    generalize ((Json.obj members).get "children").get (nibble x) = child at hform ⊢
    obtain ⟨fields, hhash, -, -⟩ := hform
    obtain ⟨text, htext⟩ := Json.isString_iff.mp hhash
    have hmemb : (Json.obj fields).isMember "hash" = true :=
      Json.isMember_of_get_ne_null (by simp [htext])
    simp [hm, htext, hmemb, Json.isNull, Json.isText, Json.isObject, Json.asString]
  · rw [Json.get_eq_null_of_not_isMember (by simpa using hm)]
    simp [hm, Json.isNull]

theorem proofContainsFrom_of_size_eq_zero
    (h : TreeForm (.obj members)) (hsize : ((Json.obj members).get "children").size = 0)
    (hash : String) : proofContainsFrom levels (.obj members) hash = false := by
  cases levels with
  | zero => rfl
  | succ levels =>
    rw [Bool.eq_false_iff, Ne, proofContainsFrom_obj h]
    rintro ⟨x, hx, -⟩
    obtain ⟨_, -, hchi, hbel⟩ := h
    have hnull := Json.get_of_size_eq_zero hchi hsize (nibble x)
    have hform := hbel x hx
    rw [hnull] at hform
    rcases hform

variable {text : String} {hash : UInt256}

theorem mem_digests_parseHex (h : text = strHex hash.data) :
    hash ∈ (Opening.digest (BaseUInt.parseHex text) : Opening UInt256 16).digests := by
  rw [h, BaseUInt.parseHex_strHex]
  exact mem_singleton.mpr rfl

/-- A hash that `proofContains` finds is fed to the root or in an inner node's `hash` field. -/
theorem mem_of_proofContainsFrom (hform : ListForm proof ∨ TreeForm proof)
    (h : proofContainsFrom levels proof (strHex hash.data) = true) :
    hash ∈ (openingOfFrom levels proof).digests ∨
      strHex hash.data ∈ innerHashesFrom levels proof := by
  induction levels generalizing proof with
  | zero => simp [proofContainsFrom] at h
  | succ levels ih =>
    rcases hform with hlist | htree
    · obtain ⟨entries, hlen, hbel⟩ := id hlist
      obtain ⟨x, hx⟩ := (proofContainsFrom_arr hlist _).mp h
      refine .inl (mem_flatMap.mpr ⟨x, mem_finRange x, ?_⟩)
      rcases hx with htext | ⟨hstr, hin⟩
      · simp only [htext, Json.isString, if_true]
        exact mem_digests_parseHex rfl
      have hent := hbel _ (getD_mem_entries hlen x) hstr
      simp only [hstr, Bool.false_eq_true, if_false]
      refine (ih (.inl hent) hin).resolve_right ?_
      rw [innerHashesFrom_of_listForm hent]
      exact not_mem_nil
    · obtain ⟨members, hhash, hchil, hbel⟩ := id htree
      obtain ⟨x, hx, hfou⟩ := (proofContainsFrom_obj htree _).mp h
      have hchi := hbel x hx
      simp only [innerHashesFrom, openingOfFrom, Opening.digests, mem_flatMap,
        mem_finRange, true_and]
      by_cases hsize : ((((Json.obj members).get "children").get (nibble x)).get
          "children").size = 0
      · refine .inl ⟨x, ?_⟩
        simp only [hx, hsize, Bool.not_true, Bool.false_eq_true, if_false, if_true]
        refine mem_digests_parseHex (hfou.resolve_right ?_)
        generalize ((Json.obj members).get "children").get (nibble x) = child at hchi hsize ⊢
        obtain ⟨fields, _, _, _⟩ := id hchi
        simp [proofContainsFrom_of_size_eq_zero hchi hsize]
      · rcases hfou with htext | hin
        · refine .inr ⟨x, ?_⟩
          rw [if_neg hsize, htext]
          exact mem_cons_self ..
        · rcases ih (.inr hchi) hin with hdig | hinn
          · refine .inl ⟨x, ?_⟩
            simpa only [hx, hsize, Bool.not_true, Bool.false_eq_true, if_false] using hdig
          · refine .inr ⟨x, ?_⟩
            rw [if_neg hsize]
            exact mem_cons_of_mem _ hinn

theorem proofContainsFrom_of_mem_innerHashesFrom
    (hform : ListForm proof ∨ TreeForm proof) (h : text ∈ innerHashesFrom levels proof) :
    proofContainsFrom levels proof text = true := by
  induction levels generalizing proof with
  | zero => simp [innerHashesFrom] at h
  | succ levels ih =>
    rcases hform with ⟨entries, _, _⟩ | htree
    · simp [innerHashesFrom] at h
    obtain ⟨members, hhash, hchi, hbel⟩ := id htree
    obtain ⟨x, -, hx⟩ := mem_flatMap.mp h
    by_cases hsize : ((((Json.obj members).get "children").get (nibble x)).get
        "children").size = 0
    · simp [hsize] at hx
    have hm : ((Json.obj members).get "children").isMember (nibble x) = true := by
      refine Json.isMember_of_get_ne_null fun hnull => hsize ?_
      rw [hnull]
      rfl
    simp only [hsize, if_false, mem_cons] at hx
    refine (proofContainsFrom_obj htree _).mpr ⟨x, hm, ?_⟩
    exact hx.imp Eq.symm fun hin => ih (.inr (hbel x hm)) hin

/-! ## Soundness -/

theorem openingOf_eq_node (h : ListForm proof ∨ TreeForm proof) :
    ∃ branches, openingOf proof = .node branches := by
  rcases h with ⟨entries, _, _⟩ | ⟨members, _, _, _⟩ <;> exact ⟨_, rfl⟩

/-- **Inclusion soundness up to the `hash` fields of inner nodes.** For an accepted proof,
`proofContains` finds only hashes fed into the root iff the `hash` fields of nodes with children are
such hashes; and then it proves inclusion in every tree with the root. -/
theorem proofContains_sound_iff (sha512Half : List UInt8 → UInt256) (proof : Json)
    (hproof : syntaxCheckProof proof = true) :
    ((∀ hash : UInt256, proofContains proof (strHex hash.data) = true →
        hash ∈ fedHashes sha512Half proof) ↔
      ∀ hash : UInt256, strHex hash.data ∈ innerHashes proof → hash ∈ fedHashes sha512Half proof) ∧
    ((∀ hash : UInt256, strHex hash.data ∈ innerHashes proof →
        hash ∈ fedHashes sha512Half proof) →
      ∀ (item : List UInt8) (tree : Tree 16),
        (txScheme sha512Half).CollisionFree
          (comparedMessages (txScheme sha512Half) (openingOf proof) tree item) →
        tree.digest (txScheme sha512Half) = hashProof sha512Half proof →
        proofContains proof (strHex ((txScheme sha512Half).leafDigest item).data) = true →
        (txScheme sha512Half).leafDigest item ∈ tree.leafDigests (txScheme sha512Half)) := by
  have hform := forms_of_syntaxCheckProof hproof
  have hfound : (∀ hash : UInt256, strHex hash.data ∈ innerHashes proof →
      hash ∈ fedHashes sha512Half proof) →
      ∀ hash : UInt256, proofContains proof (strHex hash.data) = true →
        hash ∈ fedHashes sha512Half proof := by
    intro hinner hash hcontains
    rcases mem_of_proofContainsFrom hform hcontains with hdigest | htext
    · obtain ⟨branches, hnode⟩ := openingOf_eq_node hform
      rw [← openingOf, hnode] at hdigest
      rw [fedHashes, hnode]
      exact Opening.mem_fed_of_mem_digests _ hdigest
    · exact hinner hash htext
  refine ⟨⟨fun h hash htext => ?_, hfound⟩, fun hinner item tree hcf hroot hcontains => ?_⟩
  · exact h hash (proofContainsFrom_of_mem_innerHashesFrom hform htext)
  have hfeed : (openingOf proof).feed (txScheme sha512Half)
      = (txScheme sha512Half).bytes (tree.digest (txScheme sha512Half)) := by
    rw [hroot]
    exact feed_openingOfFrom sha512Half 33 hform
  exact Tree.mem_leafDigests_of_mem_fed hcf hfeed (hfound hinner _ hcontains)

/-! ## A forged proof -/

namespace Forged

/-- The hash of the leaf with the item `01`. -/
def genuine : UInt256 where
  data := [0xBE, 0x0A, 0xB2, 0xDE, 0xBD, 0x43, 0xE5, 0xB3, 0x0E, 0x44, 0x51, 0xA5, 0x74, 0x78,
    0x0B, 0xFC, 0x40, 0x79, 0x67, 0xC6, 0x81, 0xBC, 0x02, 0x25, 0xBB, 0x21, 0x43, 0xD0, 0xC8, 0x60, 0xDA, 0xD5]
  data_length := rfl

/-- The hash of the leaf with the item `02`, which the ledger's tree does not have. -/
def forged : UInt256 where
  data := [0x4A, 0x14, 0xA4, 0xA0, 0x81, 0x34, 0x96, 0x89, 0x0A, 0x55, 0xA1, 0x27, 0x90, 0x78,
    0xF6, 0x2A, 0xFA, 0x50, 0x90, 0x2D, 0x77, 0xE3, 0xED, 0x00, 0xBD, 0x3E, 0xB9, 0x0F, 0x24, 0x79, 0xEE, 0x97]
  data_length := rfl

/-- The hash of the inner node over the genuine leaf. -/
def inner : UInt256 where
  data := [0x07, 0xFE, 0x55, 0x66, 0x16, 0x00, 0x3B, 0xE9, 0x25, 0x70, 0x34, 0x1E, 0x34, 0x3A,
    0x3F, 0xBE, 0xDB, 0x8B, 0x4C, 0x5A, 0x8D, 0xA2, 0xE6, 0x28, 0x63, 0x68, 0x2D, 0x1E, 0xD5, 0xC8, 0x56, 0x8A]
  data_length := rfl

/-- The hash of the root over that inner node. -/
def root : UInt256 where
  data := [0xD0, 0xD0, 0x56, 0x8D, 0x8E, 0x40, 0x90, 0x9E, 0xF0, 0xB0, 0xEF, 0xDA, 0x38, 0x05,
    0x09, 0xB2, 0xD9, 0xF8, 0x5B, 0x70, 0x26, 0xBD, 0x90, 0x1E, 0xCA, 0xBB, 0x79, 0xC6, 0x13, 0x54, 0xE1, 0xE2]
  data_length := rfl

/-- The message of an inner node with only its first branch. -/
def innerMessage (branch : UInt256) : List UInt8 :=
  HashPrefix.innerNode.bytes ++ branch.data ++ List.replicate 480 0

/-- The values of SHA-512Half on the four messages hashed below, which differ in the byte after the
prefix. -/
def sha512Half (message : List UInt8) : UInt256 :=
  if message.getD 4 0 = 0x01 then genuine
  else if message.getD 4 0 = 0x02 then forged
  else if message.getD 4 0 = 0xBE then inner
  else if message.getD 4 0 = 0x07 then root
  else BaseUInt.zero

/-- A tree with a single branch, the first. -/
def single (t : Tree 16) : Tree 16 := .inner fun x => if x = 0 then t else .empty

/-- The ledger's tree: the genuine leaf under two inner nodes. -/
def tree : Tree 16 := single (single (.leaf [1]))

/-- A node of the tree form with the given `hash` field. -/
def node (hash : UInt256) (children : List (String × Json)) : Json :=
  .obj [("hash", .str (strHex hash.data)), ("key", .str (strHex hash.data)),
    ("children", .obj children)]

/-- A proof of the ledger's tree whose inner node claims the given hash. -/
def proofClaiming (hash : UInt256) : Json :=
  node root [("0", node hash [("0", node genuine [])])]

theorem collisionFree {claimed : UInt256} {item : List UInt8}
    (h : (claimed = inner ∧ item = [1]) ∨ (claimed = forged ∧ item = [2])) :
    (txScheme sha512Half).CollisionFree
      (comparedMessages (txScheme sha512Half) (openingOf (proofClaiming claimed)) tree item) := by
  have hsub : ∀ x ∈ comparedMessages (txScheme sha512Half) (openingOf (proofClaiming claimed))
      tree item, x ∈ [HashPrefix.txNode.bytes ++ [1], HashPrefix.txNode.bytes ++ [2],
        innerMessage genuine, innerMessage inner] := by
    rcases h with ⟨rfl, rfl⟩ | ⟨rfl, rfl⟩ <;> decide +kernel
  exact Scheme.CollisionFree.mono ⟨by decide +kernel, by decide +kernel⟩ hsub

theorem digest_tree (claimed : UInt256) (hcla : claimed = forged ∨ claimed = inner) :
    tree.digest (txScheme sha512Half) = hashProof sha512Half (proofClaiming claimed) := by
  rcases hcla with rfl | rfl <;> decide +kernel

end Forged

open Forged in
/-- A proof that repeats the hash of its inner node proves the inclusion of its leaf. -/
theorem proofContains_sound_honest :
    syntaxCheckProof (proofClaiming inner) = true ∧
      (txScheme sha512Half).leafDigest [1] ∈ tree.leafDigests (txScheme sha512Half) := by
  have haccepted : syntaxCheckProof (proofClaiming inner) = true := by decide +kernel
  refine ⟨haccepted, (proofContains_sound_iff sha512Half (proofClaiming inner) haccepted).2
    ?_ [1] tree (collisionFree (.inl ⟨rfl, rfl⟩)) (digest_tree inner (.inr rfl))
    (by decide +kernel)⟩
  intro hash htext
  have hinner : innerHashes (proofClaiming inner) = [strHex inner.data] := by decide +kernel
  rw [hinner, List.mem_singleton] at htext
  rw [BaseUInt.strHex_injective htext]
  decide +kernel

open Forged in
/-- **A forged inclusion proof.** The inner `hash` field names a leaf that the tree does not have;
the proof is accepted, has the ledger's root and contains the leaf. -/
theorem proofContains_forged :
    syntaxCheckProof (proofClaiming forged) = true ∧
      (txScheme sha512Half).CollisionFree
        (comparedMessages (txScheme sha512Half) (openingOf (proofClaiming forged)) tree [2]) ∧
      tree.digest (txScheme sha512Half) = hashProof sha512Half (proofClaiming forged) ∧
      proofContains (proofClaiming forged) (strHex ((txScheme sha512Half).leafDigest [2]).data)
        = true ∧
      (txScheme sha512Half).leafDigest [2] ∉ tree.leafDigests (txScheme sha512Half) ∧
      (txScheme sha512Half).leafDigest [2] ∉ fedHashes sha512Half (proofClaiming forged) := by
  refine ⟨by decide +kernel, collisionFree (.inr ⟨rfl, rfl⟩),
    digest_tree forged (.inl rfl), ?_, ?_, ?_⟩
  · decide +kernel
  · decide +kernel
  · decide +kernel

end Xahau.Import
