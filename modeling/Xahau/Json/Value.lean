import Mathlib

/-! # JSON values (`json_value.h`)

The values of a parsed document and their accessors. An object is a list of members of which the
first of a name counts; `Json.getMemberNames` lists its names once each and in order, as a
`std::map` does. -/

namespace Xahau

/-- `Json::Value`. A real number is kept as its `std::to_string` text. -/
inductive Json : Type where
  | null : Json
  | bool (value : Bool) : Json
  | int (value : Int) : Json
  | uint (value : Nat) : Json
  | real (text : String) : Json
  | str (value : String) : Json
  | arr (elements : List Json) : Json
  | obj (members : List (String × Json)) : Json

namespace Json

/-- `Value::isNull`. -/
def isNull : Json → Bool
  | .null => true
  | _ => false

/-- `Value::isString`. -/
def isString : Json → Bool
  | .str _ => true
  | _ => false

/-- `Value::isArray`. -/
def isArray : Json → Bool
  | .arr _ => true
  | _ => false

/-- `Value::isObject`. -/
def isObject : Json → Bool
  | .obj _ => true
  | _ => false

/-- `operator==` against a `std::string`. -/
def isText (text : String) : Json → Bool
  | .str value => value == text
  | _ => false

/-- `Value::asString`; the text of an array or an object is never asked for. -/
def asString : Json → String
  | .null => ""
  | .bool value => if value then "true" else "false"
  | .int value => toString value
  | .uint value => toString value
  | .real text => text
  | .str value => value
  | .arr _ => ""
  | .obj _ => ""

/-- `Value::isMember`. -/
def isMember (key : String) : Json → Bool
  | .obj members => (members.lookup key).isSome
  | _ => false

/-- `Value::operator[]` by name: null for a name that is not a member. -/
def get (v : Json) (key : String) : Json :=
  match v with
  | .obj members => (members.lookup key).getD .null
  | _ => .null

/-- `Value::operator[]` by position: null past the end. -/
def elem (v : Json) (i : Nat) : Json :=
  match v with
  | .arr elements => elements.getD i .null
  | _ => .null

/-- `Value::getMemberNames`. -/
def getMemberNames : Json → List String
  | .obj members => ((members.map Prod.fst).dedup).insertionSort (· ≤ ·)
  | _ => []

/-- `Value::size`: the number of elements or of distinct names. -/
def size : Json → Nat
  | .arr elements => elements.length
  | .obj members => ((members.map Prod.fst).dedup).length
  | _ => 0

variable {v : Json} {key : String}

theorem isObject_iff : v.isObject = true ↔ ∃ members, v = .obj members := by
  cases v <;> simp [isObject]

theorem isString_iff : v.isString = true ↔ ∃ text, v = .str text := by
  cases v <;> simp [isString]

theorem size_obj_eq_zero {members : List (String × Json)} :
    (Json.obj members).size = 0 ↔ members = [] := by
  cases members with
  | nil => simp [size]
  | cons m members =>
    simp [size]

theorem get_of_size_eq_zero (hobj : v.isObject = true) (hsize : v.size = 0)
    (key : String) : v.get key = .null := by
  obtain ⟨members, rfl⟩ := isObject_iff.mp hobj
  rw [size_obj_eq_zero.mp hsize]
  rfl

theorem get_eq_null_of_not_isMember (h : v.isMember key = false) : v.get key = .null := by
  cases v with
  | obj members =>
    have hn : members.lookup key = none := by simpa [isMember] using h
    rw [get, hn, Option.getD_none]
  | _ => rfl

theorem isMember_of_get_ne_null (h : v.get key ≠ .null) : v.isMember key = true := by
  by_contra hne
  exact h (get_eq_null_of_not_isMember (by simpa using hne))

theorem mem_getMemberNames : key ∈ v.getMemberNames ↔ v.isMember key = true := by
  cases v with
  | obj members =>
    rw [getMemberNames, List.mem_insertionSort, List.mem_dedup, isMember]
    simp [Option.isSome_iff_ne_none]
  | _ => simp [getMemberNames, isMember]

end Json

end Xahau
