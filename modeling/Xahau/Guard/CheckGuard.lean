import Xahau.Guard.Basic

/-! # Scanning a function body (`check_guard`)

`check_guard` goes over the instructions of a body, skips their immediates, demands a call of the
guard function at the start of every loop, and builds the tree of the blocks with bounds on how
often each is executed. The worst-case instruction count is computed from that tree (`compute_wce`).

One iteration is `scanInstr` (what it reads, and where it goes on), then `ScanState.account` (what
it counts). The visited instructions are returned besides the tree. -/

namespace Xahau.Guard

open Checked (bind_eq_ok)

variable {endOffset : Int} {wasm : List UInt8} {i instr j : Nat}

/-- How the immediates of an instruction are passed over. -/
inductive Skip : Type where
  /-- `REQUIRE(count)`. -/
  | require (count : Nat)
  /-- `LEB()`. -/
  | leb
  /-- `ADVANCE(count)`. -/
  | advance (count : Nat)
  deriving DecidableEq, Repr

/-- Pass over the immediates from position `i`. -/
def runSkips (wasm : List UInt8) : List Skip → (i : Nat) → Check Nat
  | [], i => .ok i
  | .require count :: skips, i => do
    require wasm i count
    runSkips wasm skips i
  | .leb :: skips, i => do
    let (_, i) ← parseLeb128 wasm i
    runSkips wasm skips i
  | .advance count :: skips, i => runSkips wasm skips (i + count)

/-- The branch of `check_guard` that an opcode takes. -/
inductive Branch : Type where
  /-- Immediates of a fixed form. -/
  | skip (skips : List Skip)
  | block
  | blockEnd
  | brTable
  | call
  | callIndirect
  | refNull
  | selectTypes
  | prefixFC
  | memoryGrow
  | vector
  | unknown
  deriving DecidableEq, Repr

/-- The chain of opcode tests of `check_guard`, in its order. -/
def branchOf (instr : Nat) : Branch :=
  if instr = 0x00 ∨ instr = 0x01 ∨ instr = 0x05 then .skip []
  else if instr = 0x02 ∨ instr = 0x03 ∨ instr = 0x04 then .block
  else if instr = 0x0B then .blockEnd
  else if instr = 0x0C ∨ instr = 0x0D then .skip [.require 1, .leb]
  else if instr = 0x0E then .brTable
  else if instr = 0x0F then .skip []
  else if instr = 0x10 then .call
  else if instr = 0x11 then .callIndirect
  else if 0xD0 ≤ instr ∧ instr ≤ 0xD2 then
    if instr = 0xD0 then .refNull
    else if instr = 0xD2 then .skip [.require 1, .leb]
    else .skip []
  else if instr = 0x1A ∨ instr = 0x1B ∨ instr = 0x1C then
    if instr = 0x1C then .selectTypes else .skip []
  else if 0x20 ≤ instr ∧ instr ≤ 0x24 then .skip [.require 1, .leb]
  else if instr = 0x25 ∨ instr = 0x26 ∨ instr = 0xFC then
    if instr ≠ 0xFC then .skip [.require 1, .leb] else .prefixFC
  else if 0x28 ≤ instr ∧ instr ≤ 0x3E then .skip [.require 1, .leb, .require 1, .leb]
  else if instr = 0x3F ∨ instr = 0x40 then
    if instr = 0x40 then .memoryGrow else .skip [.require 1, .advance 1]
  else if instr = 0x41 ∨ instr = 0x42 then .skip [.require 1, .leb]
  else if instr = 0x43 then .skip [.require 4, .advance 4]
  else if instr = 0x44 then .skip [.require 8, .advance 8]
  else if 0x45 ≤ instr ∧ instr ≤ 0xC4 then .skip []
  else if instr = 0xFD then .vector
  else .unknown

/-- The immediates of a `0xFC` instruction, as far as they are passed over. -/
def skipsFC (rulesVersion fcType : Nat) : Check (List Skip) :=
  if 12 ≤ fcType ∧ fcType ≤ 17 then
    if fcType = 12 ∨ fcType = 14 then .ok [.leb, .require 1, .leb] else .ok [.leb]
  else if fcType = 8 then .ok [.leb, .require 1, .advance 1]
  else if fcType = 9 then .ok [.leb]
  else if fcType = 10 then
    if rulesVersion.testBit 1 then guardError "Memory.copy instruction is not allowed."
    else .ok [.require 2, .advance 2]
  else if fcType = 11 then
    if rulesVersion.testBit 1 then guardError "Memory.fill instruction is not allowed."
    else .ok [.advance 1]
  else if fcType ≤ 7 then .ok []
  else guardError "Illegal 0xFC instruction"

/-- The immediates of a vector instruction, as far as they are passed over. -/
def skipsVector (v : Nat) : List Skip :=
  if v ≤ 11 then [.require 1, .leb, .require 1, .leb]
  else if 84 ≤ v ∧ v ≤ 91 then [.require 1, .leb, .require 1, .leb, .require 1, .advance 1]
  else if 21 ≤ v ∧ v ≤ 34 then [.require 1, .advance 1]
  else if v = 12 ∨ v = 13 then [.require 16, .advance 16]
  else []

/-- The guard of a loop: where its instructions stand, the bound and the function called. -/
structure LoopGuard where
  idAt : Nat
  boundAt : Nat
  callAt : Nat
  iterationBound : Nat
  callFuncIdx : Nat
  deriving DecidableEq, Repr

/-- What one iteration of the scan read. -/
inductive Scanned : Type where
  /-- An instruction without effect on blocks and guards. -/
  | plain
  /-- A `block` or an `if`. -/
  | block
  /-- A `loop` with its guard. -/
  | loop (guard : LoopGuard)
  /-- An `end`. -/
  | blockEnd
  /-- A call outside of a loop guard. -/
  | call (calleeIdx : Nat)
  deriving DecidableEq, Repr

/-- What `check_guard` is told of the module. -/
structure GuardRules where
  guardFuncIdx : Int
  lastImportIdx : Int
  rulesVersion : Nat
  deriving DecidableEq, Repr

section

variable (wasm : List UInt8) (rules : GuardRules) (i : Nat)

/-- The return type of a block: a byte of a known type, or a signed number. -/
def skipBlockType : Check Nat := do
  require wasm i 1
  let blockType ← byteAt wasm i
  if (0x7C ≤ blockType ∧ blockType ≤ 0x7F) ∨ blockType = 0x7B ∨ blockType = 0x70 ∨
      blockType = 0x40 ∨ blockType = 0x6F then .ok (i + 1)
  else do
    let (_, i) ← parseSignedLeb128 wasm i
    .ok i

/-- An expected opcode of the loop guard. -/
def expectInstr (instr : UInt8) (message : String) : Check Unit := do
  require wasm i 1
  let found ← byteAt wasm i
  rejectIf (found ≠ instr) (guardFault message)

/-- The three instructions that must follow a loop. -/
def scanLoopGuard :
    Check (LoopGuard × Nat) := do
  let idAt := i
  expectInstr wasm i 0x41 "Missing first i32.const after loop instruction"
  let (_, i) ← parseSignedLeb128 wasm (i + 1)
  let boundAt := i
  expectInstr wasm i 0x41 "Missing second i32.const after loop instruction"
  let (bound, i) ← parseLeb128 wasm (i + 1)
  let callAt := i
  expectInstr wasm i 0x10 "Missing call to _g after first and second i32.const at loop start"
  let (callFuncIdx, i) ← parseLeb128 wasm (i + 1)
  let iterationBound := bound % 2 ^ 32
  rejectIf (iterationBound = 0) (guardFault "Guard call cannot specify 0 maxiter.")
  rejectIf (callFuncIdx ≠ toUInt64 rules.guardFuncIdx)
    (guardFault "Call after first and second i32.const at loop start was not _g")
  .ok (⟨idAt, boundAt, callAt, iterationBound, callFuncIdx⟩, i)

end

/-- The labels of a branch table: the count is an `int`. -/
def skipLabels (wasm : List UInt8) : (count i : Nat) → Check Nat
  | 0, i => .ok i
  | count + 1, i => do
    require wasm i 1
    let (_, i) ← parseLeb128 wasm i
    skipLabels wasm count i

/-- The value types of a `select`. -/
def skipTypes (wasm : List UInt8) : (count i : Nat) → Check Nat
  | 0, i => .ok i
  | count + 1, i => do
    require wasm i 1
    let v ← byteAt wasm i
    if (0x7B ≤ v ∧ v ≤ 0x7F) ∨ v = 0x70 ∨ v = 0x6F then skipTypes wasm count (i + 1)
    else guardError "Invalid value type in select t* vector"

/-- The rest of an instruction after its opcode. -/
def scanBranch (wasm : List UInt8) (rules : GuardRules) (instr i : Nat) :
    Branch → Check (Scanned × Nat)
  | .skip skips => do
    let i ← runSkips wasm skips i
    .ok (.plain, i)
  | .block => do
    let i ← skipBlockType wasm i
    if instr = 0x03 then do
      let (guard, i) ← scanLoopGuard wasm rules i
      .ok (.loop guard, i)
    else .ok (.block, i)
  | .blockEnd => .ok (.blockEnd, i)
  | .brTable => do
    let (count, i) ← parseLeb128 wasm i
    let i ← skipLabels wasm (toInt count).toNat i
    let i ← runSkips wasm [.require 1, .leb] i
    .ok (.plain, i)
  | .call => do
    require wasm i 1
    let (calleeIdx, i) ← parseLeb128 wasm i
    -- both sides are compared as `uint64_t`
    if toUInt64 rules.lastImportIdx < calleeIdx then
      .error (.reject .callIllegal
        "GuardCheck Hook calls a function outside of the whitelisted imports ")
    else .ok (.call calleeIdx, i)
  | .callIndirect =>
    .error (.reject .callIndirect
      "GuardCheck Call indirect detected and is disallowed in hooks ")
  | .refNull => do
    require wasm i 1
    let t ← byteAt wasm i
    if t = 0x70 ∨ t = 0x6F then .ok (.plain, i + 1)
    else guardError "Invalid reftype in 0xD0 instruction"
  | .selectTypes => do
    require wasm i 1
    let (count, i) ← parseLeb128 wasm i
    let i ← skipTypes wasm count i
    .ok (.plain, i)
  | .prefixFC => do
    require wasm i 1
    let (fcType, i) ← parseLeb128 wasm i
    require wasm i 1
    let skips ← skipsFC rules.rulesVersion fcType
    let i ← runSkips wasm skips i
    .ok (.plain, i)
  | .memoryGrow => do
    require wasm i 1
    .error (.reject .memoryGrow "GuardCheck Memory.grow instruction not allowed at ")
  | .vector => do
    require wasm i 1
    let (v, i) ← parseLeb128 wasm i
    let i ← runSkips wasm (skipsVector v) i
    .ok (.plain, i)
  | .unknown => guardError "Unknown instruction opcode"

/-- What one iteration of `check_guard` reads, and the position after it. -/
def scanInstr (wasm : List UInt8) (rules : GuardRules) (i : Nat) : Check (Scanned × Nat) := do
  require wasm i 1
  let instr ← byteAt wasm i
  scanBranch wasm rules instr.toNat (i + 1) (branchOf instr.toNat)

theorem byteAt_of_expectInstr {instr : UInt8} {message : String}
    {u : Unit} (h : expectInstr wasm i instr message = .ok u) : byteAt wasm i = .ok instr := by
  simp only [expectInstr, bind_eq_ok, rejectIf_eq_ok, not_not] at h
  obtain ⟨-, -, found, hfou, rfl⟩ := h
  exact hfou

/-- What a loop guard that passes consists of. -/
structure LoopGuard.Spec (wasm : List UInt8) (rules : GuardRules) (i j : Nat)
    (guard : LoopGuard) : Prop where
  idAt : guard.idAt = i
  id : byteAt wasm i = .ok 0x41
  idNumber : ∃ v, parseSignedLeb128 wasm (i + 1) = .ok (v, guard.boundAt)
  bound : byteAt wasm guard.boundAt = .ok 0x41
  boundNumber : ∃ n, parseLeb128 wasm (guard.boundAt + 1) = .ok (n, guard.callAt) ∧
    guard.iterationBound = n % 2 ^ 32
  call : byteAt wasm guard.callAt = .ok 0x10
  callNumber : parseLeb128 wasm (guard.callAt + 1) = .ok (guard.callFuncIdx, j)
  callFuncIdx : guard.callFuncIdx = toUInt64 rules.guardFuncIdx

variable {rules : GuardRules} {visited : List (Nat × Scanned)} {fuel : Nat} {s : ScanState}
  {scanned : Scanned}

theorem scanLoopGuard_spec {guard : LoopGuard} (h : scanLoopGuard wasm rules i = .ok (guard, j)) :
    guard.Spec wasm rules i j := by
  simp only [scanLoopGuard, bind_eq_ok, rejectIf_eq_ok, not_not] at h
  obtain ⟨_, hid, ⟨v, boundAt⟩, hv, _, hbound, ⟨n, callAt⟩, hn, _, hcall, ⟨callFuncIdx, j⟩,
    hnum, -, -, -, hguard, h⟩ := h
  cases h
  exact ⟨rfl, byteAt_of_expectInstr hid, ⟨v, hv⟩, byteAt_of_expectInstr hbound, ⟨n, hn, rfl⟩,
    byteAt_of_expectInstr hcall, hnum, hguard⟩

theorem scanInstr_eq_ok (h : scanInstr wasm rules i = .ok (scanned, j)) :
    ∃ instr, byteAt wasm i = .ok instr ∧
      scanBranch wasm rules instr.toNat (i + 1) (branchOf instr.toNat) = .ok (scanned, j) := by
  simp only [scanInstr, bind_eq_ok] at h
  obtain ⟨-, -, instr, hins, h⟩ := h
  exact ⟨instr, hins, h⟩

theorem scanBranch_block (h : scanBranch wasm rules instr i .block = .ok (scanned, j)) :
    ∃ k, skipBlockType wasm i = .ok k ∧
      ((instr ≠ 0x03 ∧ scanned = .block ∧ j = k) ∨
        (instr = 0x03 ∧ ∃ guard, scanned = .loop guard ∧ guard.Spec wasm rules k j)) := by
  simp only [scanBranch, bind_eq_ok] at h
  obtain ⟨k, hk, h⟩ := h
  refine ⟨k, hk, ?_⟩
  split at h
  next hloop =>
    rw [bind_eq_ok] at h
    obtain ⟨⟨guard, j⟩, hguard, h⟩ := h
    cases h
    exact .inr ⟨hloop, guard, rfl, scanLoopGuard_spec hguard⟩
  next hloop =>
    cases h
    exact .inl ⟨hloop, rfl, rfl⟩

theorem scanBranch_call (h : scanBranch wasm rules instr i .call = .ok (scanned, j)) :
    ∃ calleeIdx, scanned = .call calleeIdx ∧ parseLeb128 wasm i = .ok (calleeIdx, j) ∧
      calleeIdx ≤ toUInt64 rules.lastImportIdx := by
  simp only [scanBranch, bind_eq_ok] at h
  obtain ⟨-, -, ⟨calleeIdx, k⟩, hleb, h⟩ := h
  split at h
  · cases h
  · cases h
    exact ⟨calleeIdx, rfl, hleb, by omega⟩

theorem scanBranch_plain {branch : Branch} (hblo : branch ≠ .block) (hcall : branch ≠ .call)
    (h : scanBranch wasm rules instr i branch = .ok (scanned, j)) :
    scanned = .plain ∨ (branch = .blockEnd ∧ scanned = .blockEnd) := by
  cases branch with
  | block => exact absurd rfl hblo
  | call => exact absurd rfl hcall
  | blockEnd =>
    cases h
    exact .inr ⟨rfl, rfl⟩
  | callIndirect | unknown => cases h
  | memoryGrow =>
    simp only [scanBranch, bind_eq_ok] at h
    obtain ⟨-, -, h⟩ := h
    cases h
  | refNull =>
    simp only [scanBranch, bind_eq_ok] at h
    obtain ⟨-, -, t, -, h⟩ := h
    split at h
    · cases h
      exact .inl rfl
    · cases h
  | skip skips =>
    simp only [scanBranch, bind_eq_ok] at h
    obtain ⟨k, -, h⟩ := h
    cases h
    exact .inl rfl
  | brTable | selectTypes | vector =>
    simp only [scanBranch, bind_eq_ok] at h
    obtain ⟨_, -, _, -, _, -, h⟩ := h
    cases h
    exact .inl rfl
  | prefixFC =>
    simp only [scanBranch, bind_eq_ok] at h
    obtain ⟨_, -, _, -, _, -, _, -, _, -, h⟩ := h
    cases h
    exact .inl rfl

/-- What an iteration can read: a loop with its guard, a call of an import, or something else. -/
theorem scanInstr_cases (h : scanInstr wasm rules i = .ok (scanned, j)) :
    (∃ guard k, scanned = .loop guard ∧ guard.Spec wasm rules k j) ∨
      (∃ calleeIdx, scanned = .call calleeIdx ∧ calleeIdx ≤ toUInt64 rules.lastImportIdx) ∨
      scanned = .block ∨ scanned = .plain ∨ scanned = .blockEnd := by
  obtain ⟨instr, -, h⟩ := scanInstr_eq_ok h
  by_cases hblo : branchOf instr.toNat = .block
  · rw [hblo] at h
    obtain ⟨k, -, ⟨-, hsca, -⟩ | ⟨-, guard, hsca, hguard⟩⟩ := scanBranch_block h
    · exact .inr (.inr (.inl hsca))
    · exact .inl ⟨guard, k, hsca, hguard⟩
  by_cases hcall : branchOf instr.toNat = .call
  · rw [hcall] at h
    obtain ⟨calleeIdx, hsca, -, hle⟩ := scanBranch_call h
    exact .inr (.inl ⟨calleeIdx, hsca, hle⟩)
  · exact .inr (.inr (.inr ((scanBranch_plain hblo hcall h).imp_right And.right)))

/-! ## The tree of blocks -/

/-- `WasmBlkInf`: a block's bound, its own instructions and the blocks in it. -/
inductive Block : Type where
  | mk (iterationBound instructionCount startByte : Nat) (children : List Block) : Block

/-- A block that is still open. -/
structure OpenBlock where
  iterationBound : Nat
  instructionCount : Nat
  startByte : Nat
  children : List Block

def OpenBlock.close (b : OpenBlock) : Block :=
  .mk b.iterationBound b.instructionCount b.startByte b.children

def OpenBlock.addChild (b : OpenBlock) (child : Block) : OpenBlock :=
  { b with children := b.children ++ [child] }

/-- The variables of the loop of `check_guard` besides the position. -/
structure ScanState where
  guardCount : Nat
  blockDepth : Int
  /-- The block the scan is in. -/
  current : OpenBlock
  /-- The blocks around it, the nearest first; the last is the root. -/
  parents : List OpenBlock

namespace ScanState

/-- The state at the start of a body: only the root is open. -/
def init (startOffset : Nat) : ScanState where
  guardCount := 0
  blockDepth := 0
  current := ⟨1, 0, startOffset, []⟩
  parents := []

section

variable (s : ScanState) (rules : GuardRules) (endOffset : Int) (i : Nat)

/-- `current->instruction_count++`. -/
def countInstr : ScanState :=
  { s with current := { s.current with instructionCount := s.current.instructionCount + 1 } }

/-- One more guard call; there may be no more than `MAX_GUARD_CALLS`. -/
def countGuard : Check ScanState :=
  if 1024 < s.guardCount then guardError "Too many guard calls! Limit is 1024"
  else .ok { s with guardCount := s.guardCount + 1 }

/-- Open a block; one that is no loop is bounded like the block it is in. -/
def openBlock (loopBound : Option Nat) (i : Nat) : ScanState :=
  let inherited := if s.parents = [] then 1 else s.current.iterationBound
  { s with
    blockDepth := s.blockDepth + 1
    current := ⟨loopBound.getD inherited, 0, i, []⟩
    parents := s.current :: s.parents }

/-- Close the block: the state in the block around it, or the root. -/
def closeBlock : Check (ScanState ⊕ Block) :=
  let blockDepth := s.blockDepth - 1
  match s.parents with
  | [] =>
    if blockDepth = -1 ∧ endOffset ≤ i then .ok (.inr s.current.close)
    else guardError "Illegal block end (current==0)"
  | parent :: parents =>
    if blockDepth < 0 then guardError "Illegal block end (block_depth<0)"
    else .ok (.inl { s with
      blockDepth := blockDepth
      current := parent.addChild s.current.close
      parents := parents })

/-- What one iteration counts: the next state, or the root at the end. `i` is the position after the
instruction. -/
def account :
    Scanned → Check (ScanState ⊕ Block)
  | .plain => .ok (.inl s.countInstr)
  | .block => .ok (.inl (s.countInstr.openBlock none i))
  | .loop guard => do
    let s ← s.countInstr.countGuard
    .ok (.inl (s.openBlock (some guard.iterationBound) i))
  | .blockEnd => s.countInstr.closeBlock endOffset i
  | .call calleeIdx =>
    if calleeIdx = toUInt64 rules.guardFuncIdx then do
      let s ← s.countInstr.countGuard
      .ok (.inl s)
    else .ok (.inl s.countInstr)

end

theorem le_of_account_eq_inr {s : ScanState} {rules : GuardRules} {scanned : Scanned} {root : Block}
    (h : s.account rules endOffset i scanned = .ok (.inr root)) : endOffset ≤ i := by
  cases scanned with
  | plain | block => cases h
  | loop guard =>
    obtain ⟨s', -, h⟩ := bind_eq_ok.mp h
    cases h
  | call calleeIdx =>
    rw [account] at h
    split at h
    · obtain ⟨s', -, h⟩ := bind_eq_ok.mp h
      cases h
    · cases h
  | blockEnd =>
    simp only [account, closeBlock] at h
    split at h
    · split at h
      next hend =>
        exact hend.2
      · cases h
    · split at h
      · cases h
      · cases h

/-- The root of the tree with all open blocks in their places. -/
def root (s : ScanState) : Block :=
  (s.parents.foldl (fun inner outer => outer.addChild inner.close) s.current).close

end ScanState

/-- The loop of `check_guard` from `i`: the root of the tree of blocks, and the instructions
visited, with positions. -/
def scanLoop (wasm : List UInt8) (rules : GuardRules) (endOffset : Int) :
    (fuel : Nat) → ScanState → (i : Nat) → Check (Block × List (Nat × Scanned))
  | 0, _, _ => .error .outOfFuel
  | fuel + 1, s, i =>
    if endOffset ≤ i then .ok (s.root, [])
    else do
      let (scanned, j) ← scanInstr wasm rules i
      match ← s.account rules endOffset j scanned with
      | .inr root => .ok (root, [(i, scanned)])
      | .inl s => do
        let (root, visited) ← scanLoop wasm rules endOffset fuel s j
        .ok (root, (i, scanned) :: visited)

theorem scanLoop_next {root : Block} (hi : (i : Int) < endOffset)
    (h : scanLoop wasm rules endOffset fuel s i = .ok (root, visited)) :
    ∃ scanned j next rest fuel', fuel = fuel' + 1 ∧ scanInstr wasm rules i = .ok (scanned, j) ∧
      s.account rules endOffset j scanned = .ok next ∧ visited = (i, scanned) :: rest ∧
      ((endOffset ≤ j ∧ rest = [] ∧ next = .inr root) ∨
        ∃ s', next = .inl s' ∧ scanLoop wasm rules endOffset fuel' s' j = .ok (root, rest)) := by
  cases fuel with
  | zero => simp [scanLoop] at h
  | succ fuel =>
    rw [scanLoop, if_neg (by omega)] at h
    obtain ⟨⟨scanned, j⟩, hscan, h⟩ := bind_eq_ok.mp h
    obtain ⟨next, hacc, h⟩ := bind_eq_ok.mp h
    refine ⟨scanned, j, next, ?_⟩
    cases next with
    | inr root' =>
      cases h
      exact ⟨[], fuel, rfl, hscan, hacc, rfl, .inl ⟨ScanState.le_of_account_eq_inr hacc, rfl, rfl⟩⟩
    | inl s' =>
      obtain ⟨⟨root', rest⟩, hrest, h⟩ := bind_eq_ok.mp h
      cases h
      exact ⟨rest, fuel, rfl, hscan, hacc, rfl, .inr ⟨s', rfl, hrest⟩⟩

theorem scanInstr_of_mem_visited {root : Block}
    (h : scanLoop wasm rules endOffset fuel s i = .ok (root, visited)) :
    ∀ p ∈ visited, ∃ j, scanInstr wasm rules p.1 = .ok (p.2, j) := by
  induction fuel generalizing s i root visited with
  | zero => simp [scanLoop] at h
  | succ fuel ih =>
    by_cases hi : (i : Int) < endOffset
    · obtain ⟨scanned, j, next, rest, fuel', ⟨⟩, hscan, -, rfl, hrest⟩ := scanLoop_next hi h
      intro p hp
      rcases List.mem_cons.mp hp with rfl | hp
      · exact ⟨j, hscan⟩
      rcases hrest with ⟨-, rfl, -⟩ | ⟨s', -, hrest⟩
      · exact nomatch hp
      · exact ih hrest p hp
    · rw [scanLoop, if_pos (by omega)] at h
      cases h
      simp

/-! ## The worst case -/

/-- A body that passed: its worst-case count, the tree and the instructions visited. `check_guard`
returns the first. -/
structure CheckedBody where
  worstCase : Nat
  root : Block
  visited : List (Nat × Scanned)

/-- The scaling without the rounding of `double`s. -/
def exactScale (w bound parentBound : Nat) : Nat := w * bound / parentBound

section

/- `scale w bound parentBound` is what `w *= (double)bound / (double)parentBound` leaves in a
`uint64_t`. -/
variable (scale : Nat → Nat → Nat → Nat)

/-- `compute_wce`: nothing when the recursion limit is reached. -/
def computeWce : (levels : Nat) → (parentBound : Option Nat) → Block → Option Nat
  | 0, _, _ => none
  | levels + 1, parentBound, .mk bound count _ children => do
    let below ← children.mapM (computeWce levels (some bound))
    let worstCase := count + below.sum
    match parentBound with
    | none => some worstCase
    | some parentBound =>
      if parentBound = 0 then some worstCase
      else some (max 1 (scale worstCase bound parentBound))

/-- `check_guard`. -/
def checkGuard (wasm : List UInt8) (startOffset : Nat) (endOffset : Int) (rules : GuardRules) :
    Check CheckedBody := do
  let endOffset := if endOffset ≤ 0 then (wasm.length : Int) else endOffset
  -- every iteration moves on and needs a byte
  let (root, visited) ←
    scanLoop wasm rules endOffset (wasm.length + 1) (.init startOffset) startOffset
  match computeWce scale 17 none root with
  | none =>
    .error (.reject .nestingLimit
      ("GuardCheck Maximum allowable depth of blocks reached (16 levels). " ++
        "Flatten your loops and conditions!."))
  | some worstCase =>
    if 0xFFFF ≤ worstCase then
      .error (.reject .instructionExcess
        ("GuardCheck Maximum possible instructions exceed 65535, please make your hook smaller " ++
          "or check your guards!"))
    else .ok ⟨worstCase, root, visited⟩

theorem scanLoop_of_checkGuard {startOffset : Nat} {rules : GuardRules} {checked : CheckedBody}
    (h : checkGuard scale wasm startOffset endOffset rules = .ok checked) :
    scanLoop wasm rules (if endOffset ≤ 0 then (wasm.length : Int) else endOffset)
      (wasm.length + 1) (.init startOffset) startOffset = .ok (checked.root, checked.visited) := by
  simp only [checkGuard, bind_eq_ok] at h
  obtain ⟨⟨root, visited⟩, hscan, h⟩ := h
  split at h
  · cases h
  split at h
  · cases h
  · cases h
    exact hscan

end

end Xahau.Guard
