import Xahau.Basics.BaseUInt
import Xahau.Basics.HashPrefix
import Xahau.Data.HashTree
import Xahau.Json.Value

/-! # The transaction proof of an XPOP (`Import.h`, `Import.cpp`)

A proof that a transaction is in a ledger has list form (arrays of sixteen hex strings or further
arrays) or tree form (objects with `hash`, `key` and `children`). `syntaxCheckProof` accepts its
shape; `Import::preflight` then looks for the hash of the transaction (`proofContains`) and computes
the root (`hashProof`).

The walks count their depth up to a bound. Here they count down the levels that are left. -/

namespace Xahau

/-- `isHex`: only hexadecimal digits, of either case. -/
def isHex (text : String) : Bool := text.toList.all fun c => (Hex.value? c).isSome

/-- The name of branch `x`: a character of `"0123456789ABCDEF"`. -/
def nibble (x : Fin 16) : String := String.singleton (Hex.digit x)

namespace Import

/-- The `hash`, `key` and `children` fields every node of the tree form must have. -/
def isTreeNode (node : Json) : Bool :=
  (node.get "hash").isString && (node.get "hash").asString.utf8ByteSize == 64 &&
  (node.get "key").isString && (node.get "key").asString.utf8ByteSize == 64 &&
  (node.get "children").isObject

/-- `syntaxCheckProof` with `levels` left; the root has `65`. -/
def syntaxCheckProofFrom : (levels : Nat) → Json → Bool
  | 0, _ => false
  | levels + 1, .arr entries =>
    entries.length == 16 && entries.all fun entry =>
      if entry.isString then isHex entry.asString && entry.asString.utf8ByteSize == 64
      else if entry.isArray then syntaxCheckProofFrom levels entry
      else false
  | levels + 1, .obj members =>
    let proof := Json.obj members
    -- the root is a special case: it is a node, below it come the maps of children
    if levels = 64 then
      isTreeNode proof && syntaxCheckProofFrom levels (proof.get "children")
    else
      proof.getMemberNames.all fun branch =>
        branch.utf8ByteSize == 1 && isHex branch &&
        (proof.get branch).isObject && isTreeNode (proof.get branch) &&
        syntaxCheckProofFrom levels ((proof.get branch).get "children")
  | _ + 1, _ => false

/-- `syntaxCheckProof` at depth zero. -/
def syntaxCheckProof (proof : Json) : Bool := syntaxCheckProofFrom 65 proof

/-- `proofContains` with `levels` levels left. -/
def proofContainsFrom : (levels : Nat) → Json → (hash : String) → Bool
  | 0, _, _ => false
  | levels + 1, proof, hash =>
    if !proof.isObject && !proof.isArray then false
    else
      let node := if proof.isMember "children" then proof.get "children" else proof
      (List.finRange 16).any fun x =>
        let entry := if node.isObject then node.get (nibble x) else node.elem x
        !entry.isNull &&
          (entry.isText hash ||
            (entry.isObject && entry.isMember "hash" && (entry.get "hash").isText hash) ||
            proofContainsFrom levels entry hash)

/-- `proofContains` at depth zero. -/
def proofContains (proof : Json) (hash : String) : Bool := proofContainsFrom 33 proof hash

section

variable (sha512Half : List UInt8 → UInt256)

/-- What a text feeds to its parent's hash: nothing if it is no hash. -/
def feedText (text : String) : List UInt8 :=
  match (BaseUInt.parseHex text : Option UInt256) with
  | some hash => hash.data
  | none => []

/-- `hashProof` with `levels` levels left. -/
def hashProofFrom : (levels : Nat) → Json → UInt256
  | 0, _ => BaseUInt.zero
  | levels + 1, .arr entries =>
    sha512Half (HashPrefix.innerNode.bytes ++ entries.flatMap fun entry =>
      if entry.isString then feedText entry.asString else (hashProofFrom levels entry).data)
  | levels + 1, .obj members =>
    let children := (Json.obj members).get "children"
    sha512Half (HashPrefix.innerNode.bytes ++ (List.finRange 16).flatMap fun x =>
      let child := children.get (nibble x)
      if !children.isMember (nibble x) then (BaseUInt.zero : UInt256).data
      else if (child.get "children").size = 0 then feedText (child.get "hash").asString
      else (hashProofFrom levels child).data)
  | _ + 1, _ => BaseUInt.zero

/-- `hashProof` at depth zero: the transaction root computed from a proof. -/
def hashProof (proof : Json) : UInt256 := hashProofFrom sha512Half 33 proof

/-- How the transaction tree is hashed: a leaf has metadata and identifier. -/
def txScheme : HashTree.Scheme UInt256 where
  hash := sha512Half
  zero := BaseUInt.zero
  bytes := BaseUInt.data
  width := 32
  leafTag := HashPrefix.txNode.bytes
  innerTag := HashPrefix.innerNode.bytes
  width_pos := by decide
  bytes_length := BaseUInt.data_length
  bytes_injective := fun _ _ h => BaseUInt.ext h
  tag_length := rfl
  tag_ne := by decide

end

end Import

end Xahau
