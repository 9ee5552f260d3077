import Xahau.Data.Leb128

/-! # The binary grammar of WebAssembly instructions

An instruction is an opcode, for the prefixed groups a second opcode, and its immediates:
`Wasm.fields`, `Wasm.fieldsFC` and `Wasm.fieldsFD` are the table of the core instructions, with bulk
memory, references and vectors. An expression is a sequence of properly nested instructions up to
the `end` of its own block (`Wasm.decodeExpr`). Decoders return what they read and its length. -/

namespace Wasm

open Leb128 Option

variable {vs : List Int} {l : List UInt8} {k : Nat}

/-- An immediate of an instruction. -/
inductive Field : Type where
  /-- An unsigned 32-bit number: an index, an alignment or an offset. -/
  | u32
  /-- A signed 32-bit number. -/
  | s32
  /-- A signed 64-bit number. -/
  | s64
  /-- A block type: none, a value type or a type index. -/
  | blockType
  /-- A fixed number of bytes: a lane, a float or a vector constant. -/
  | bytes (count : Nat)
  /-- The byte zero. -/
  | zero
  /-- A reference type. -/
  | refType
  /-- The labels of a branch table, with the default label. -/
  | labels
  /-- A vector of value types. -/
  | valTypes
  deriving DecidableEq, Repr

/-- Whether a byte is a reference type. -/
def isRefType (b : UInt8) : Bool := b == 0x70 || b == 0x6F

/-- Whether a byte is a value type. -/
def isValType (b : UInt8) : Bool := (0x7B ≤ b && b ≤ 0x7F) || isRefType b

/-- `count` unsigned numbers in a row. -/
def decodeIndices : (count : Nat) → List UInt8 → Option (List Int × Nat)
  | 0, _ => some ([], 0)
  | count + 1, l => do
    let (v, k) ← Leb128.unsigned 32 l
    let (vs, m) ← decodeIndices count (l.drop k)
    some (v :: vs, k + m)

/-- Read an immediate: its operands and how many bytes it takes. -/
def Field.decode : Field → List UInt8 → Option (List Int × Nat)
  | .u32, l => (Leb128.unsigned 32 l).map fun p => ([(p.1 : Int)], p.2)
  | .s32, l => (Leb128.signed 32 l).map fun p => ([p.1], p.2)
  | .s64, l => (Leb128.signed 64 l).map fun p => ([p.1], p.2)
  | .blockType, [] => none
  | .blockType, b :: l =>
    if b = 0x40 ∨ isValType b = true then some ([(b.toNat : Int)], 1)
    else do
      let (v, k) ← Leb128.signed 33 (b :: l)
      if 0 ≤ v then some ([v], k) else none
  | .bytes count, l =>
    if count ≤ l.length then some ((l.take count).map fun b => (b.toNat : Int), count) else none
  | .zero, [] => none
  | .zero, b :: _ => if b = 0 then some ([], 1) else none
  | .refType, [] => none
  | .refType, b :: _ => if isRefType b = true then some ([(b.toNat : Int)], 1) else none
  | .labels, l => do
    let (count, k) ← Leb128.unsigned 32 l
    let (vs, m) ← decodeIndices count (l.drop k)
    let (v, j) ← Leb128.unsigned 32 (l.drop (k + m))
    some (vs ++ [(v : Int)], k + m + j)
  | .valTypes, l => do
    let (count, k) ← Leb128.unsigned 32 l
    if count ≤ (l.drop k).length ∧ ∀ b ∈ (l.drop k).take count, isValType b = true then
      some (((l.drop k).take count).map fun b => (b.toNat : Int), k + count)
    else none

/-- Read immediates in a row. -/
def decodeFields : List Field → List UInt8 → Option (List Int × Nat)
  | [], _ => some ([], 0)
  | f :: fs, l => do
    let (vs, k) ← f.decode l
    let (ws, m) ← decodeFields fs (l.drop k)
    some (vs ++ ws, k + m)

/-! ## The instruction table -/

/-- The immediates of the instructions with a single opcode. -/
def fields (opcode : Nat) : Option (List Field) :=
  if opcode ∈ [0x00, 0x01, 0x05, 0x0B, 0x0F] then some []
  else if opcode ∈ [0x02, 0x03, 0x04] then some [.blockType]
  else if opcode ∈ [0x0C, 0x0D, 0x10] then some [.u32]
  else if opcode = 0x0E then some [.labels]
  else if opcode = 0x11 then some [.u32, .u32]
  else if opcode ∈ [0x1A, 0x1B] then some []
  else if opcode = 0x1C then some [.valTypes]
  else if 0x20 ≤ opcode ∧ opcode ≤ 0x26 then some [.u32]
  else if 0x28 ≤ opcode ∧ opcode ≤ 0x3E then some [.u32, .u32]
  else if opcode ∈ [0x3F, 0x40] then some [.zero]
  else if opcode = 0x41 then some [.s32]
  else if opcode = 0x42 then some [.s64]
  else if opcode = 0x43 then some [.bytes 4]
  else if opcode = 0x44 then some [.bytes 8]
  else if 0x45 ≤ opcode ∧ opcode ≤ 0xC4 then some []
  else if opcode = 0xD0 then some [.refType]
  else if opcode = 0xD1 then some []
  else if opcode = 0xD2 then some [.u32]
  else none

/-- The immediates with the prefix `0xFC`: saturating truncations, bulk memory and tables. -/
def fieldsFC (opcode : Nat) : Option (List Field) :=
  if opcode ≤ 7 then some []
  else if opcode = 8 then some [.u32, .zero]
  else if opcode = 9 then some [.u32]
  else if opcode = 10 then some [.zero, .zero]
  else if opcode = 11 then some [.zero]
  else if opcode ∈ [12, 14] then some [.u32, .u32]
  else if opcode ∈ [13, 15, 16, 17] then some [.u32]
  else none

/-- The second opcodes below 256 that no vector instruction has. -/
def unassignedFD : List Nat :=
  [154, 162, 165, 166, 175, 176, 178, 179, 180, 187, 194, 197, 198, 207, 208, 210, 211, 212, 226,
    238]

/-- The immediates of the vector instructions (prefix `0xFD`). -/
def fieldsFD (opcode : Nat) : Option (List Field) :=
  if opcode ≤ 11 then some [.u32, .u32]
  else if opcode ∈ [12, 13] then some [.bytes 16]
  else if 21 ≤ opcode ∧ opcode ≤ 34 then some [.bytes 1]
  else if 84 ≤ opcode ∧ opcode ≤ 91 then some [.u32, .u32, .bytes 1]
  else if opcode ∈ [92, 93] then some [.u32, .u32]
  else if opcode < 256 ∧ opcode ∉ unassignedFD then some []
  else none

/-! ## Instructions and expressions -/

/-- An instruction: its opcodes and operands. -/
structure Instr where
  opcode : Nat
  /-- The second opcode of a prefixed instruction. -/
  sub : Option Nat
  operands : List Int
  deriving DecidableEq, Repr

/-- Read a prefixed instruction after its prefix. -/
def decodePrefixed (table : Nat → Option (List Field)) (opcode : Nat) (l : List UInt8) :
    Option (Instr × Nat) := do
  let (sub, k) ← Leb128.unsigned 32 l
  let fs ← table sub
  let (vs, m) ← decodeFields fs (l.drop k)
  some (⟨opcode, some sub, vs⟩, 1 + k + m)

/-- Read an instruction, and how many bytes it takes. -/
def decodeInstr : List UInt8 → Option (Instr × Nat)
  | [] => none
  | b :: l =>
    if b = 0xFC then decodePrefixed fieldsFC 0xFC l
    else if b = 0xFD then decodePrefixed fieldsFD 0xFD l
    else do
      let fs ← fields b.toNat
      let (vs, k) ← decodeFields fs l
      some (⟨b.toNat, none, vs⟩, 1 + k)

/-- A block that is open. -/
inductive Frame : Type where
  | block | loop | cond | alternative
  deriving DecidableEq, Repr

/-- The blocks open after an instruction but `end`; `else` only stands in an `if`. -/
def nest (frames : List Frame) (opcode : Nat) : Option (List Frame) :=
  if opcode = 0x02 then some (.block :: frames)
  else if opcode = 0x03 then some (.loop :: frames)
  else if opcode = 0x04 then some (.cond :: frames)
  else if opcode = 0x05 then
    match frames with
    | .cond :: outer => some (.alternative :: outer)
    | _ => none
  else some frames

/-- Read the rest of an expression with blocks open: instructions and their positions. Every one
takes a byte, which bounds the recursion. -/
def decodeFrom : (fuel pos : Nat) → List Frame → List UInt8 → Option (List (Nat × Instr))
  | 0, _, _, _ => none
  | fuel + 1, pos, frames, l => do
    let (instr, k) ← decodeInstr l
    if instr.opcode = 0x0B then
      match frames with
      | [] => if l.drop k = [] then some [(pos, instr)] else none
      | _ :: outer => do
        let instrs ← decodeFrom fuel (pos + k) outer (l.drop k)
        some ((pos, instr) :: instrs)
    else do
      let frames ← nest frames instr.opcode
      let instrs ← decodeFrom fuel (pos + k) frames (l.drop k)
      some ((pos, instr) :: instrs)

/-- Read an expression that starts at `pos` and takes all the bytes. -/
def decodeExpr (pos : Nat) (l : List UInt8) : Option (List (Nat × Instr)) :=
  decodeFrom l.length pos [] l

variable {f : Field} {instr : Instr} {instrs : List (Nat × Instr)} {fs : List Field}
  {bits pos : Nat}

theorem decodeFields_cons (h : decodeFields (f :: fs) l = some (vs, k)) :
    ∃ ws a xs b, f.decode l = some (ws, a) ∧ decodeFields fs (l.drop a) = some (xs, b) ∧
      vs = ws ++ xs ∧ k = a + b := by
  simp only [decodeFields, bind_eq_bind, bind_eq_some_iff] at h
  obtain ⟨⟨ws, a⟩, ha, ⟨xs, b⟩, hb, h⟩ := h
  cases h
  exact ⟨ws, a, xs, b, ha, hb, rfl, rfl⟩

/-! ## Lengths -/

theorem length_of_unsigned {u : Nat} (hpos : 0 < bits)
    (h : unsigned bits l = some (u, k)) : 1 ≤ k ∧ k ≤ l.length :=
  raw_length (raw_of_unsigned hpos h).1

theorem length_of_signed {v : Int} (hpos : 0 < bits)
    (h : signed bits l = some (v, k)) : k ≤ l.length := by
  obtain ⟨u, hraw, -⟩ := raw_of_signed hpos h
  exact (raw_length hraw).2

theorem length_of_decodeIndices {count : Nat}
    (h : decodeIndices count l = some (vs, k)) : count ≤ k ∧ k ≤ l.length := by
  induction count generalizing l vs k with
  | zero =>
    cases h
    simp
  | succ count ih =>
    simp only [decodeIndices, bind_eq_bind, bind_eq_some_iff] at h
    obtain ⟨⟨v, a⟩, ha, ⟨ws, b⟩, hb, h⟩ := h
    cases h
    have h₁ := length_of_unsigned (by decide) ha
    have h₂ := ih hb
    rw [List.length_drop] at h₂
    omega

theorem Field.length_of_decode (h : f.decode l = some (vs, k)) : k ≤ l.length := by
  cases f with
  | u32 =>
    obtain ⟨⟨u, a⟩, ha, heq⟩ := map_eq_some_iff.mp h
    cases heq
    exact (length_of_unsigned (by decide) ha).2
  | s32 | s64 =>
    obtain ⟨⟨v, a⟩, ha, heq⟩ := map_eq_some_iff.mp h
    cases heq
    exact length_of_signed (by decide) ha
  | blockType =>
    cases l with
    | nil => simp [decode] at h
    | cons b l =>
      rw [decode] at h
      split at h
      · cases h
        simp
      simp only [bind_eq_bind, bind_eq_some_iff] at h
      obtain ⟨⟨v, a⟩, ha, h⟩ := h
      split at h
      · cases h
        exact length_of_signed (by decide) ha
      · cases h
  | bytes count =>
    rw [decode] at h
    split at h
    · cases h
      assumption
    · cases h
  | zero | refType =>
    cases l with
    | nil => simp [decode] at h
    | cons b l =>
      rw [decode] at h
      split at h
      · cases h
        simp
      · cases h
  | labels =>
    simp only [decode, bind_eq_bind, bind_eq_some_iff] at h
    obtain ⟨⟨count, a⟩, ha, ⟨ws, b⟩, hb, ⟨v, c⟩, hc, h⟩ := h
    cases h
    have h₁ := length_of_unsigned (by decide) ha
    have h₂ := length_of_decodeIndices hb
    have h₃ := length_of_unsigned (by decide) hc
    rw [List.length_drop] at h₂ h₃
    omega
  | valTypes =>
    simp only [decode, bind_eq_bind, bind_eq_some_iff] at h
    obtain ⟨⟨count, a⟩, ha, h⟩ := h
    split at h
    next hcount =>
      cases h
      have h₁ := length_of_unsigned (by decide) ha
      have h₂ := hcount.1
      rw [List.length_drop] at h₂
      omega
    · cases h

theorem length_of_decodeFields (h : decodeFields fs l = some (vs, k)) : k ≤ l.length := by
  induction fs generalizing l vs k with
  | nil =>
    cases h
    simp
  | cons f fs ih =>
    obtain ⟨ws, a, xs, b, ha, hb, rfl, rfl⟩ := decodeFields_cons h
    have h₁ := Field.length_of_decode ha
    have h₂ := ih hb
    rw [List.length_drop] at h₂
    omega

/-! ## What an instruction and an expression consist of -/

/-- A prefixed instruction: its second opcode and the immediates of that. -/
theorem decodePrefixed_eq_some {table : Nat → Option (List Field)} {opcode : Nat}
    (h : decodePrefixed table opcode l = some (instr, k)) :
    ∃ sub a fs vs b, unsigned 32 l = some (sub, a) ∧ table sub = some fs ∧
      decodeFields fs (l.drop a) = some (vs, b) ∧ instr = ⟨opcode, some sub, vs⟩ ∧
      k = 1 + a + b := by
  simp only [decodePrefixed, bind_eq_bind, bind_eq_some_iff] at h
  obtain ⟨⟨sub, a⟩, ha, fs, hfs, ⟨vs, b⟩, hb, h⟩ := h
  cases h
  exact ⟨sub, a, fs, vs, b, ha, hfs, hb, rfl, rfl⟩

/-- An instruction without a prefix: its opcode and the immediates of that. -/
theorem decodeInstr_eq_some {b : UInt8}
    (hFC : b ≠ 0xFC) (hFD : b ≠ 0xFD) (h : decodeInstr (b :: l) = some (instr, k)) :
    ∃ fs vs a, fields b.toNat = some fs ∧ decodeFields fs l = some (vs, a) ∧
      instr = ⟨b.toNat, none, vs⟩ ∧ k = 1 + a := by
  simp only [decodeInstr, if_neg hFC, if_neg hFD, bind_eq_bind, bind_eq_some_iff] at h
  obtain ⟨fs, hfs, ⟨vs, a⟩, ha, h⟩ := h
  cases h
  exact ⟨fs, vs, a, hfs, ha, rfl, rfl⟩

/-- An instruction takes at least a byte and at most those there are. -/
theorem length_of_decodeInstr (h : decodeInstr l = some (instr, k)) : 1 ≤ k ∧ k ≤ l.length := by
  cases l with
  | nil => simp [decodeInstr] at h
  | cons b l =>
    rw [List.length_cons]
    have hpre : ∀ table opcode, decodePrefixed table opcode l = some (instr, k) →
        1 ≤ k ∧ k ≤ l.length + 1 := by
      intro table opcode h
      obtain ⟨sub, a, fs, vs, c, ha, -, hc, -, rfl⟩ := decodePrefixed_eq_some h
      have h₁ := length_of_unsigned (by decide) ha
      have h₂ := length_of_decodeFields hc
      rw [List.length_drop] at h₂
      omega
    by_cases hFC : b = 0xFC
    · rw [decodeInstr, if_pos hFC] at h
      exact hpre _ _ h
    by_cases hFD : b = 0xFD
    · rw [decodeInstr, if_neg hFC, if_pos hFD] at h
      exact hpre _ _ h
    obtain ⟨fs, vs, a, -, ha, -, rfl⟩ := decodeInstr_eq_some hFC hFD h
    have h₁ := length_of_decodeFields ha
    omega

/-- The bytes from `pos` on are the rest of an expression with blocks open. -/
def Decoded (pos : Nat) (l : List UInt8) (instrs : List (Nat × Instr)) : Prop :=
  ∃ fuel frames, decodeFrom fuel pos frames l = some instrs

/-- The rest of an expression is an instruction, and after the last `end` nothing. -/
theorem Decoded.step (h : Decoded pos l instrs) :
    ∃ instr k tail, decodeInstr l = some (instr, k) ∧ instrs = (pos, instr) :: tail ∧
      ((instr.opcode = 0x0B ∧ l.drop k = [] ∧ tail = []) ∨ Decoded (pos + k) (l.drop k) tail) := by
  obtain ⟨fuel, frames, h⟩ := h
  cases fuel with
  | zero => simp [decodeFrom] at h
  | succ fuel =>
    simp only [decodeFrom, bind_eq_bind, bind_eq_some_iff] at h
    obtain ⟨⟨instr, k⟩, hins, h⟩ := h
    split at h
    next hend =>
      cases frames with
      | nil =>
        simp only [] at h
        split at h
        next hdrop =>
          cases h
          exact ⟨instr, k, [], hins, rfl, .inl ⟨hend, hdrop, rfl⟩⟩
        · cases h
      | cons frame outer =>
        simp only [bind_eq_some_iff] at h
        obtain ⟨tail, htail, h⟩ := h
        cases h
        exact ⟨instr, k, tail, hins, rfl, .inr ⟨fuel, outer, htail⟩⟩
    · simp only [bind_eq_some_iff] at h
      obtain ⟨inner, -, tail, htail, h⟩ := h
      cases h
      exact ⟨instr, k, tail, hins, rfl, .inr ⟨fuel, inner, htail⟩⟩

theorem Decoded.ne_nil (h : Decoded pos l instrs) : l ≠ [] := by
  rintro rfl
  obtain ⟨instr, k, tail, hins, -⟩ := h.step
  simp [decodeInstr] at hins

end Wasm
