import Xahau.Data.WasmControl
import Xahau.Guard.Bound
import Xahau.Guard.Scan

/-! # The execution of a checked body

`check_guard` records for every block how many instructions it has and how often it may be executed.
The sum of the products (`Block.total`) is compared with the number of instructions that a run
executes, in which the guard function stops the hook (`Wasm.Runs`).

* `follows`: the scan of code adds its instructions to the total of its block, and finds every loop
  with its guard;
* `runs_le_total` is the comparison. A loop's opcode and guard are not in its total, but executed
  each time it is started. -/

namespace Xahau.Guard

open Checked (bind_eq_ok)

open Function List ScanState Wasm

/-! ## The total of a tree -/

mutual

/-- The instructions of a block and those in it, each times its block's bound. -/
def Block.total : Block → Nat
  | .mk bound count _ children => bound * count + totals children

def totals : List Block → Nat
  | [] => 0
  | block :: blocks => block.total + totals blocks

end

section

variable (b : OpenBlock)

def OpenBlock.total : Nat := b.iterationBound * b.instructionCount + totals b.children

def OpenBlock.countInstr : OpenBlock :=
  { b with instructionCount := b.instructionCount + 1 }

theorem totals_append (xs ys : List Block) : totals (xs ++ ys) = totals xs + totals ys := by
  induction xs with
  | nil => simp [totals]
  | cons x xs ih => simp only [cons_append, totals, ih, Nat.add_assoc]

@[simp] theorem OpenBlock.total_close : b.close.total = b.total := by
  rw [OpenBlock.close, Block.total, OpenBlock.total]

@[simp] theorem OpenBlock.total_countInstr : b.countInstr.total = b.total + b.iterationBound := by
  simp only [OpenBlock.total, OpenBlock.countInstr, Nat.mul_succ]
  omega

@[simp] theorem OpenBlock.total_addChild (child : Block) :
    (b.addChild child).total = b.total + child.total := by
  simp only [OpenBlock.total, OpenBlock.addChild, totals_append, totals, Nat.add_zero, Nat.add_assoc]

end

/-! ## One instruction -/

theorem opcode_of_decodeInstr {b : UInt8} {l : List UInt8} {instr : Instr} {k : Nat}
    (h : decodeInstr (b :: l) = some (instr, k)) : instr.opcode = b.toNat := by
  by_cases hFC : b = 0xFC
  · subst hFC
    rw [decodeInstr, if_pos rfl] at h
    obtain ⟨sub, a, fs, vs, c, -, -, -, rfl, -⟩ := decodePrefixed_eq_some h
    rfl
  by_cases hFD : b = 0xFD
  · subst hFD
    rw [decodeInstr, if_neg hFC, if_pos rfl] at h
    obtain ⟨sub, a, fs, vs, c, -, -, -, rfl, -⟩ := decodePrefixed_eq_some h
    rfl
  · obtain ⟨fs, vs, a, -, -, rfl, -⟩ := decodeInstr_eq_some hFC hFD h
    rfl

theorem branchOf_plain (b : UInt8) (h : b.toNat ∉ [0x02, 0x03, 0x04, 0x0B]) :
    branchOf b.toNat ≠ .block ∧ branchOf b.toNat ≠ .blockEnd := by
  have htab : ∀ n < 256, n ∉ [0x02, 0x03, 0x04, 0x0B] →
      branchOf n ≠ .block ∧ branchOf n ≠ .blockEnd := by
    decide +kernel
  exact htab b.toNat b.toNat_lt h

section

variable {wasm l : List UInt8} {i j k : Nat} {rules : GuardRules} {instr : Instr}
  {scanned : Scanned}

theorem scanInstr_scanned (hl : l <+: wasm.drop i) (hd : decodeInstr l = some (instr, k))
    (h : scanInstr wasm rules i = .ok (scanned, j)) :
    (instr.opcode = 0x02 ∨ instr.opcode = 0x04 → scanned = .block) ∧
      (instr.opcode = 0x0B → scanned = .blockEnd) ∧
      (instr.opcode ∉ [0x02, 0x03, 0x04, 0x0B] →
        scanned = .plain ∨ ∃ calleeIdx, scanned = .call calleeIdx) := by
  obtain ⟨b, hb, h⟩ := scanInstr_eq_ok h
  cases l with
  | nil => simp [decodeInstr] at hd
  | cons c l =>
    rw [drop_of_byteAt hb] at hl
    obtain ⟨rfl, -⟩ := cons_prefix_cons.mp hl
    rw [opcode_of_decodeInstr hd]
    refine ⟨fun hop => ?_, fun hop => ?_, fun hop => ?_⟩
    · have hbra : branchOf c.toNat = .block := by rcases hop with hop | hop <;> rw [hop] <;> rfl
      rw [hbra] at h
      obtain ⟨m, -, ⟨-, hsca, -⟩ | ⟨hloop, -⟩⟩ := scanBranch_block h
      · exact hsca
      · omega
    · rw [hop] at h
      cases h
      rfl
    · obtain ⟨hblo, hend⟩ := branchOf_plain c hop
      by_cases hcall : branchOf c.toNat = .call
      · rw [hcall] at h
        obtain ⟨calleeIdx, hsca, -⟩ := scanBranch_call h
        exact .inr ⟨calleeIdx, hsca⟩
      · rcases scanBranch_plain hblo hcall h with hpla | ⟨habs, -⟩
        · exact .inl hpla
        · exact absurd habs hend

end

section

variable {rules : GuardRules} {endOffset : Int} {s : ScanState} {j : Nat} {next : ScanState ⊕ Block}

theorem account_plain {scanned : Scanned}
    (hsca : scanned = .plain ∨ ∃ calleeIdx, scanned = .call calleeIdx)
    (h : s.account rules endOffset j scanned = .ok next) :
    ∃ s', next = .inl s' ∧ s'.current = s.current.countInstr ∧ s'.parents = s.parents := by
  rcases hsca with rfl | ⟨calleeIdx, rfl⟩
  · cases h
    exact ⟨_, rfl, rfl, rfl⟩
  rw [account] at h
  split at h
  · obtain ⟨s', hguard, h⟩ := bind_eq_ok.mp h
    cases h
    rw [countGuard] at hguard
    split at hguard
    · cases hguard
    · cases hguard
      exact ⟨_, rfl, rfl, rfl⟩
  · cases h
    exact ⟨_, rfl, rfl, rfl⟩

theorem account_loop {guard : LoopGuard}
    (h : s.account rules endOffset j (.loop guard) = .ok next) :
    ∃ s', next = .inl s' ∧ s'.parents = s.current.countInstr :: s.parents ∧
      s'.current = ⟨guard.iterationBound, 0, j, []⟩ := by
  obtain ⟨s', hguard, h⟩ := bind_eq_ok.mp h
  cases h
  rw [countGuard] at hguard
  split at hguard
  · cases hguard
  · cases hguard
    exact ⟨_, rfl, rfl, rfl⟩

theorem account_end (h : s.account rules endOffset j .blockEnd = .ok next) :
    (s.parents = [] ∧ next = .inr s.current.countInstr.close) ∨
      ∃ parent parents s', s.parents = parent :: parents ∧ next = .inl s' ∧
        s'.current = parent.addChild s.current.countInstr.close ∧ s'.parents = parents := by
  rw [account, closeBlock] at h
  have hpar : s.countInstr.parents = s.parents := rfl
  split at h
  next hroot =>
    split at h
    · cases h
      exact .inl ⟨hpar ▸ hroot, rfl⟩
    · cases h
  next parent parents hpare =>
    split at h
    · cases h
    · cases h
      exact .inr ⟨parent, parents, _, hpar ▸ hpare, rfl, rfl, rfl⟩

end

/-! ## The scan of code -/

/-- The scan in front of some instructions, which goes on with the tree `root`. -/
def Scanning (wasm : List UInt8) (rules : GuardRules) (endOffset : Int) (root : Block)
    (s : ScanState) (instrs : List Instr) : Prop :=
  ∃ fuel i l visited positioned,
    scanLoop wasm rules endOffset fuel s i = .ok (root, visited) ∧ l <+: wasm.drop i ∧
    (endOffset = i + l.length ∨
      ((i : Int) + l.length < endOffset ∧ wasm.length ≤ i + l.length)) ∧
    Decoded i l positioned ∧ positioned.map Prod.snd = instrs

section

variable {wasm : List UInt8} {rules : GuardRules} {endOffset : Int} {root : Block} {s : ScanState}
  {instr : Instr} {tail : List Instr} {l : List UInt8} {i : Nat}

theorem end_drop {m : Nat} (hm : m ≤ l.length) (hend : endOffset = i + l.length ∨
      ((i : Int) + l.length < endOffset ∧ wasm.length ≤ i + l.length)) :
    endOffset = (i + m : Nat) + (l.drop m).length ∨
      (((i + m : Nat) : Int) + (l.drop m).length < endOffset ∧
        wasm.length ≤ i + m + (l.drop m).length) := by
  rw [length_drop]
  omega

section

variable (hsize : wasm.length < 0x80000000)
  (h : Scanning wasm rules endOffset root s (instr :: tail)) (hzero : isZeroLoad instr = false)

include hsize h hzero

theorem Scanning.advance (hop : instr.opcode ≠ 0x03) :
    ∃ scanned j next, s.account rules endOffset j scanned = .ok next ∧
      ((instr.opcode = 0x02 ∨ instr.opcode = 0x04 → scanned = .block) ∧
        (instr.opcode = 0x0B → scanned = .blockEnd) ∧
        (instr.opcode ∉ [0x02, 0x03, 0x04, 0x0B] →
          scanned = .plain ∨ ∃ calleeIdx, scanned = .call calleeIdx)) ∧
      (next = .inr root ∨
        ∃ s', next = .inl s' ∧ (tail ≠ [] → Scanning wasm rules endOffset root s' tail)) := by
  obtain ⟨fuel, i, l, visited, positioned, hscan, hl, hend, hdec, hins⟩ := h
  have hpos : 0 < l.length := length_pos_iff.mpr hdec.ne_nil
  obtain ⟨instr', k, positioned', hd, rfl, hnext⟩ := hdec.step
  obtain ⟨rfl, rfl⟩ := List.cons.inj hins
  obtain ⟨scanned, j, next, visited', fuel', -, hread, hacc, -, hgoes⟩ :=
    scanLoop_next (by omega) hscan
  refine ⟨scanned, j, next, hacc, scanInstr_scanned hl hd hread, ?_⟩
  refine hgoes.imp (fun hstop => hstop.2.2) fun ⟨s', heq, hrest⟩ => ⟨s', heq, fun htail => ?_⟩
  rcases scanInstr_step hsize hl hd hread with ⟨habs, -⟩ | ⟨-, -, -, rfl⟩ | ⟨-, habs, -⟩
  · rw [hzero] at habs
    cases habs
  · rcases hnext with ⟨-, -, rfl⟩ | hnext
    · exact absurd rfl htail
    · exact ⟨fuel', i + k, l.drop k, visited', positioned', hrest, prefixed_drop hl k,
        end_drop (length_of_decodeInstr hd).2 hend, hnext, rfl⟩
  · exact absurd habs hop

theorem Scanning.plain (hop : instr.opcode ∉ [0x02, 0x03, 0x04, 0x0B]) (htail : tail ≠ []) :
    ∃ s', Scanning wasm rules endOffset root s' tail ∧ s'.current = s.current.countInstr ∧
      s'.parents = s.parents := by
  have hloop : instr.opcode ≠ 0x03 := by
    rintro heq
    simp [heq] at hop
  obtain ⟨scanned, j, next, hacc, ⟨-, -, hpla⟩, hgoes⟩ := h.advance hsize hzero hloop
  obtain ⟨s', rfl, hcur, hpar⟩ := account_plain (hpla hop) hacc
  obtain habs | ⟨s'', heq, hrest⟩ := hgoes
  · cases habs
  · cases heq
    exact ⟨s', hrest htail, hcur, hpar⟩

theorem Scanning.block (hop : instr.opcode = 0x02 ∨ instr.opcode = 0x04) (htail : tail ≠ []) :
    ∃ s' startByte, Scanning wasm rules endOffset root s' tail ∧
      s'.parents = s.current.countInstr :: s.parents ∧
      s'.current = ⟨if s.parents = [] then 1 else s.current.iterationBound, 0, startByte, []⟩ := by
  obtain ⟨scanned, j, next, hacc, ⟨hblo, -, -⟩, hgoes⟩ := h.advance hsize hzero (by omega)
  rw [hblo hop] at hacc
  cases hacc
  obtain habs | ⟨s', heq, hrest⟩ := hgoes
  · cases habs
  · cases heq
    exact ⟨_, j, hrest htail, rfl, rfl⟩

end

theorem Scanning.blockEnd (hsize : wasm.length < 0x80000000) {parent : OpenBlock}
    {parents : List OpenBlock} (h : Scanning wasm rules endOffset root s (endInstr :: tail))
    (hpar : s.parents = parent :: parents) (htail : tail ≠ []) :
    ∃ s', Scanning wasm rules endOffset root s' tail ∧
      s'.current = parent.addChild s.current.countInstr.close ∧ s'.parents = parents := by
  obtain ⟨scanned, j, next, hacc, ⟨-, hend, -⟩, hgoes⟩ := h.advance hsize rfl (by decide)
  rw [hend rfl] at hacc
  obtain ⟨hroot, -⟩ | ⟨parent', parents', s', hpar', rfl, hcur, hs'⟩ := account_end hacc
  · rw [hpar] at hroot
    cases hroot
  rw [hpar] at hpar'
  cases hpar'
  obtain habs | ⟨s'', heq, hrest⟩ := hgoes
  · cases habs
  · cases heq
    exact ⟨s', hrest htail, hcur, hs'⟩

theorem Scanning.root_eq (hsize : wasm.length < 0x80000000)
    (h : Scanning wasm rules endOffset root s [endInstr]) (hpar : s.parents = []) :
    root = s.current.countInstr.close := by
  obtain ⟨scanned, j, next, hacc, ⟨-, hend, -⟩, hgoes⟩ := h.advance hsize rfl (by decide)
  rw [hend rfl] at hacc
  obtain ⟨-, rfl⟩ | ⟨parent', parents', s', hpar', -⟩ := account_end hacc
  · obtain heq | ⟨s', heq, -⟩ := hgoes
    · exact (Sum.inr.inj heq).symm
    · cases heq
  · rw [hpar] at hpar'
    cases hpar'

theorem iterationBound_eq {guard : LoopGuard} {n : Int} {a j : Nat}
    (hl : l <+: wasm.drop (guard.boundAt + 1)) (hguard : guard.Spec wasm rules i j)
    (hn : Leb128.signed 32 l = some (n, a)) (hnn : 0 ≤ n) : guard.iterationBound = word n := by
  obtain ⟨u, hraw, -, hval, -, hlt⟩ := Leb128.raw_of_signed (by decide) hn
  obtain ⟨v, hv, hbound⟩ := hguard.boundNumber
  obtain ⟨-, hv⟩ := parseLeb128_eq (raw_of_prefixed hl hraw) hv
  have hwei := Leb128.raw_lt hraw
  have hu : n = u := by
    split at hval
    · have hcast : ((2 ^ (7 * a) : Nat) : Int) = 2 ^ (7 * a) := by norm_cast
      omega
    · omega
  rw [hbound, hv, word]
  norm_num at hlt
  omega

theorem Scanning.loop (hsize : wasm.length < 0x80000000) {type : List Int}
    (h : Scanning wasm rules endOffset root s (⟨0x03, none, type⟩ :: tail)) :
    ∃ n n' callee bound startByte tail' s',
      tail = ⟨0x41, none, [n]⟩ :: ⟨0x41, none, [n']⟩ :: ⟨0x10, none, [callee]⟩ :: tail' ∧
      isGuardIdx rules callee = true ∧ (0 ≤ n' → bound = word n') ∧
      Scanning wasm rules endOffset root s' tail' ∧
      s'.parents = s.current.countInstr :: s.parents ∧ s'.current = ⟨bound, 0, startByte, []⟩ := by
  obtain ⟨fuel, i, l, visited, positioned, hscan, hl, hend, hdec, hins⟩ := h
  have hpos : 0 < l.length := length_pos_iff.mpr hdec.ne_nil
  obtain ⟨instr', k, positioned', hd, rfl, hnext⟩ := hdec.step
  obtain ⟨rfl, rfl⟩ := List.cons.inj hins
  obtain ⟨scanned, j, next, visited', fuel', -, hread, hacc, -, hgoes⟩ :=
    scanLoop_next (by omega) hscan
  rcases scanInstr_step hsize hl hd hread with
    ⟨habs, -⟩ | ⟨-, habs, -⟩ | ⟨-, -, guard, rfl, hguard⟩
  · simp [isZeroLoad] at habs
  · exact absurd rfl habs
  obtain ⟨habs, -⟩ | hnext := hnext
  · cases habs
  have hl' := prefixed_drop hl k
  obtain ⟨n, n', rest, m, rfl, ⟨a, a', hbou, hn'⟩, hlt, hj, hdec'⟩ := decoded_guard hnext hl' hguard
  obtain ⟨s', rfl, hpar, hcur⟩ := account_loop hacc
  obtain ⟨-, -, habs⟩ | ⟨s'', heq, hrest⟩ := hgoes
  · cases habs
  cases heq
  have hcal : isGuardIdx rules guard.callFuncIdx = true := by
    simp only [isGuardIdx, hguard.callFuncIdx, beq_self_eq_true, Bool.true_and,
      decide_eq_true_eq]
    rw [← hguard.callFuncIdx]
    omega
  have hm : m ≤ (l.drop k).length := by
    have hne := length_pos_iff.mpr hdec'.ne_nil
    rw [length_drop] at hne
    omega
  refine ⟨n, n', guard.callFuncIdx, guard.iterationBound, j, rest.map Prod.snd, s', rfl,
    hcal, ?_, ⟨fuel', j, (l.drop k).drop m, visited', rest, hrest, ?_, ?_, hdec', rfl⟩,
    hpar, hcur⟩
  · refine iterationBound_eq ?_ hguard hn'
    rw [hbou]
    exact prefixed_drop (prefixed_drop hl' a) 1
  · rw [hj]
    exact prefixed_drop hl' m
  · rw [hj]
    exact end_drop hm (end_drop (length_of_decodeInstr hd).2 hend)

end

/-- What the scan of code leaves: it is in the same block, with more in its total. -/
structure Advances (s s' : ScanState) (cost : Nat) : Prop where
  parents : s'.parents = s.parents
  bound : s'.current.iterationBound = s.current.iterationBound
  total : s'.current.total = s.current.total + cost

/-- The root is executed once. -/
def Rooted (s : ScanState) : Prop := s.parents = [] → s.current.iterationBound = 1

variable {code : Code} {bound : Int} {wasm : List UInt8} {m : Machine} {cost n : Nat}
  {guards : Nat → Nat} {o : Outcome} {s s' : ScanState}

theorem Advances.trans {s'' : ScanState} {cost' : Nat} (h : Advances s s' cost)
    (h' : Advances s' s'' cost') : Advances s s'' (cost + cost') where
  parents := h'.parents.trans h.parents
  bound := h'.bound.trans h.bound
  total := by rw [h'.total, h.total, Nat.add_assoc]

theorem Advances.rooted (h : Advances s s' cost) (hroot : Rooted s) : Rooted s' := by
  intro hpar
  rw [h.bound]
  exact hroot (h.parents ▸ hpar)

section

variable {wasm : List UInt8} {rules : GuardRules} {endOffset : Int} {root : Block} {s s₁ s₂ : ScanState}
  {instr : Instr} {inner tail : List Instr} {cost : Nat}

theorem Advances.of_closed {startByte bound : Nat} {s₃ : ScanState}
    (hcur : s₁.current = ⟨bound, 0, startByte, []⟩) (hinn : Advances s₁ s₂ cost)
    (hclo : s₃.current = s.current.countInstr.addChild s₂.current.countInstr.close)
    (hpar₃ : s₃.parents = s.parents) : Advances s s₃ (s.current.iterationBound + cost + bound) := by
  have hbound : s₁.current.iterationBound = bound := by rw [hcur]
  have htot : s₁.current.total = 0 := by
    rw [hcur, OpenBlock.total]
    simp [totals]
  refine ⟨hpar₃, by rw [hclo]; rfl, ?_⟩
  rw [hclo, OpenBlock.total_addChild, OpenBlock.total_close, OpenBlock.total_countInstr,
    OpenBlock.total_countInstr, hinn.total, hinn.bound, htot, hbound]
  omega

theorem Scanning.enclose (hsize : wasm.length < 0x80000000) (hroot : Rooted s)
    (h : Scanning wasm rules endOffset root s (instr :: (inner ++ endInstr :: tail)))
    (hzero : isZeroLoad instr = false) (hop : instr.opcode = 0x02 ∨ instr.opcode = 0x04)
    (htail : tail ≠ []) {P : Prop}
    (hinn : ∀ s₁, Rooted s₁ → s₁.current.iterationBound = s.current.iterationBound →
      Scanning wasm rules endOffset root s₁ (inner ++ endInstr :: tail) →
      ∃ s₂, Scanning wasm rules endOffset root s₂ (endInstr :: tail) ∧ Advances s₁ s₂ cost ∧ P) :
    ∃ s', Scanning wasm rules endOffset root s' tail ∧
      Advances s s' (2 * s.current.iterationBound + cost) ∧ P := by
  obtain ⟨s₁, startByte, hscan₁, hpar, hcur⟩ := h.block hsize hzero hop (by simp)
  have hinh : (if s.parents = [] then 1 else s.current.iterationBound)
      = s.current.iterationBound := by
    split
    next hnil => exact (hroot hnil).symm
    next => rfl
  rw [hinh] at hcur
  have hroot₁ : Rooted s₁ := by
    intro hnil
    rw [hpar] at hnil
    cases hnil
  obtain ⟨s₂, hscan₂, hadv, hP⟩ := hinn s₁ hroot₁ (by rw [hcur]) hscan₁
  obtain ⟨s₃, hscan₃, hclo, hpar₃⟩ := hscan₂.blockEnd hsize (hadv.parents.trans hpar) htail
  refine ⟨s₃, hscan₃, ?_, hP⟩
  have hclos := Advances.of_closed hcur hadv hclo hpar₃
  have hcost : s.current.iterationBound + cost + s.current.iterationBound
      = 2 * s.current.iterationBound + cost := by omega
  rwa [hcost] at hclos

theorem Scanning.single (hsize : wasm.length < 0x80000000)
    (h : Scanning wasm rules endOffset root s (instr :: tail)) (hzero : isZeroLoad instr = false)
    (hop : instr.opcode ∉ [0x02, 0x03, 0x04, 0x0B]) (htail : tail ≠ []) :
    ∃ s', Scanning wasm rules endOffset root s' tail ∧ Advances s s' s.current.iterationBound := by
  obtain ⟨s', hscan, hcur, hpar⟩ := h.plain hsize hzero hop htail
  exact ⟨s', hscan, hpar, by rw [hcur]; rfl, by rw [hcur, OpenBlock.total_countInstr]⟩

end

section

variable (wasm : List UInt8) (rules : GuardRules) (endOffset : Int) (root : Block)

/-- The scan goes over the code to what comes after, loops start with their guards, and the total of
the block grows by the instructions. -/
def Follows (code : Code) : Prop :=
  ∀ ⦃s : ScanState⦄ ⦃tail : List Instr⦄, Rooted s → tail ≠ [] →
    Scanning wasm rules endOffset root s (code.flatten ++ tail) →
    ∃ s', Scanning wasm rules endOffset root s' tail ∧
      Advances s s' (s.current.iterationBound * code.own + code.work) ∧
      Covered (isGuardIdx rules) code.allowances code

end

section

variable {wasm : List UInt8} {rules : GuardRules} {endOffset : Int} {root : Block}
  {s s₁ : ScanState} {tail : List Instr} {body rest yes no : Code} {type : List Int} {cost : Nat}

theorem Follows.after (hrest : Follows wasm rules endOffset root rest) (hroot : Rooted s)
    (hadv : Advances s s₁ cost) (htail : tail ≠ [])
    (h : Scanning wasm rules endOffset root s₁ (rest.flatten ++ tail)) :
    ∃ s', Scanning wasm rules endOffset root s' tail ∧
      Advances s s'
        (cost + (s.current.iterationBound * rest.own + rest.work)) ∧
      Covered (isGuardIdx rules) rest.allowances rest := by
  obtain ⟨s', hscan, hadv', hcov⟩ := hrest (hadv.rooted hroot) htail h
  rw [hadv.bound] at hadv'
  exact ⟨s', hscan, hadv.trans hadv', hcov⟩

theorem Follows.done : Follows wasm rules endOffset root .done :=
  fun s _ _ _ h => ⟨s, h, ⟨rfl, rfl, rfl⟩, .done⟩

section

variable (hsize : wasm.length < 0x80000000)

include hsize

theorem Follows.instr {i : Instr} {plain : i.isStructural = false} (hzero : isZeroLoad i = false)
    (hrest : Follows wasm rules endOffset root rest) :
    Follows wasm rules endOffset root (.instr i plain rest) := by
  intro s tail hroot htail h
  have hop : i.opcode ∉ [0x02, 0x03, 0x04, 0x0B] := by
    simp only [Instr.isStructural, decide_eq_false_iff_not, mem_cons, not_mem_nil,
      or_false, not_or] at plain ⊢
    exact ⟨plain.1, plain.2.1, plain.2.2.1, plain.2.2.2.2⟩
  obtain ⟨s₁, hscan₁, hadv₁⟩ := h.single hsize hzero hop (by simp [htail])
  obtain ⟨s₂, hscan₂, hadv₂, hcov⟩ := hrest.after hroot hadv₁ htail hscan₁
  refine ⟨s₂, hscan₂, ?_, .instr hcov⟩
  convert hadv₂ using 1
  rw [Code.own, Code.work_instr]
  ring

theorem Follows.enclosing {code : Code} {i : Instr} (hop : i.opcode = 0x02 ∨ i.opcode = 0x04)
    (hbody : Follows wasm rules endOffset root body) (hrest : Follows wasm rules endOffset root rest)
    (hflat : code.flatten = i :: (body.flatten ++ endInstr :: rest.flatten))
    (hown : code.own = 2 + body.own + rest.own)
    (hall : code.allowances = body.allowances ++ rest.allowances)
    (hcode : ∀ {loops}, Covered (isGuardIdx rules) loops body →
      Covered (isGuardIdx rules) loops rest → Covered (isGuardIdx rules) loops code) :
    Follows wasm rules endOffset root code := by
  intro s tail hroot htail h
  rw [hflat, cons_append, append_assoc, cons_append] at h
  have hzero : isZeroLoad i = false := by
    rcases hop with hop | hop <;> simp [isZeroLoad, hop]
  obtain ⟨s₁, hscan₁, hadv₁, hcov⟩ := h.enclose hsize hroot hzero hop (by simp [htail])
    fun s₁ hroot₁ hbound hscan => by
      have hinn := hbody hroot₁ (by simp) hscan
      rwa [hbound] at hinn
  obtain ⟨s₂, hscan₂, hadv₂, hcov'⟩ := hrest.after hroot hadv₁ htail hscan₁
  rw [hall]
  refine ⟨s₂, hscan₂, ?_, hcode (hcov.mono fun _ => mem_append_left _)
    (hcov'.mono fun _ => mem_append_right _)⟩
  convert hadv₂ using 1
  rw [hown, Code.work_append hall]
  ring

theorem Follows.condElse
    (hyes : Follows wasm rules endOffset root yes) (hno : Follows wasm rules endOffset root no)
    (hrest : Follows wasm rules endOffset root rest) :
    Follows wasm rules endOffset root (.condElse type yes no rest) := by
  intro s tail hroot htail h
  have hinn : (Code.condElse type yes no rest).flatten ++ tail
      = ⟨0x04, none, type⟩ :: ((yes.flatten ++ elseInstr :: no.flatten) ++
        endInstr :: (rest.flatten ++ tail)) := by
    simp [Code.flatten]
  rw [hinn] at h
  obtain ⟨s₁, hscan₁, hadv₁, hcov, hcov'⟩ :=
    h.enclose (P := Covered (isGuardIdx rules) yes.allowances yes ∧
      Covered (isGuardIdx rules) no.allowances no) hsize hroot rfl (.inr rfl) (by simp [htail])
      fun s₁ hroot₁ hbound hscan => by
      rw [append_assoc] at hscan
      obtain ⟨s₂, hscan₂, hadv₂, hcov⟩ := hyes hroot₁ (by simp) hscan
      obtain ⟨s₃, hscan₃, hadv₃⟩ := hscan₂.single hsize rfl (by decide) (by simp)
      obtain ⟨s₄, hscan₄, hadv₄, hcov'⟩ := hno.after hroot₁ (hadv₂.trans hadv₃) (by simp) hscan₃
      rw [hadv₂.bound, hbound] at hadv₄
      exact ⟨s₄, hscan₄, hadv₄, hcov, hcov'⟩
  obtain ⟨s₂, hscan₂, hadv₂, hcov''⟩ := hrest.after hroot hadv₁ htail hscan₁
  refine ⟨s₂, hscan₂, ?_, .condElse (hcov.mono fun _ => mem_append_left _)
    (hcov'.mono fun _ hmem => mem_append_right _ (mem_append_left _ hmem))
    (hcov''.mono fun _ hmem => mem_append_right _ (mem_append_right _ hmem))⟩
  convert hadv₂ using 1
  rw [Code.own, Code.work_condElse]
  ring

theorem Follows.loop {first second call : Instr} {h₁ h₂ h₃}
    {code : Code} (hnn : 0 ≤ second.operands.headD 0)
    (hcode : Follows wasm rules endOffset root code)
    (hrest : Follows wasm rules endOffset root rest) :
    Follows wasm rules endOffset root
      (.loop type (.instr first h₁ (.instr second h₂ (.instr call h₃ code))) rest) := by
  intro s tail hroot htail h
  simp only [Code.flatten, cons_append, append_assoc] at h
  obtain ⟨n, n', callee, bound, startByte, tail', s₁, heq, hcal, hbound, hscan₁, hpar,
    hcur⟩ := h.loop hsize
  obtain ⟨rfl, rfl, rfl, rfl⟩ := heq
  obtain rfl := hbound hnn
  have hroot₁ : Rooted s₁ := by
    intro hnil
    rw [hpar] at hnil
    cases hnil
  obtain ⟨s₂, hscan₂, hadv₂, hcov⟩ := hcode hroot₁ (by simp) hscan₁
  obtain ⟨s₃, hscan₃, hclo, hpar₃⟩ :=
    hscan₂.blockEnd hsize (hadv₂.parents.trans hpar) (by simp [htail])
  have hadv₃ := Advances.of_closed hcur hadv₂ hclo hpar₃
  obtain ⟨s₄, hscan₄, hadv₄, hcov'⟩ := hrest.after hroot hadv₃ htail hscan₃
  refine ⟨s₄, hscan₄, ?_, ?_⟩
  · rw [hcur] at hadv₄
    convert hadv₄ using 1
    rw [Code.own, Code.work_loop]
    dsimp only [List.headD]
    ring
  · refine .loop (.head rfl rfl rfl rfl ?_) (Nat.le_refl _) mem_cons_self
      (hcov.mono fun _ hmem => mem_cons_of_mem _ (mem_append_left _ hmem))
      (hcov'.mono fun _ hmem => mem_cons_of_mem _ (mem_append_right _ hmem))
    simp [Instr.callsGuard, hcal]

theorem Follows.of_unguarded (hbody : ∀ first h₁ second h₂ call h₃ code,
      body ≠ .instr first h₁ (.instr second h₂ (.instr call h₃ code))) :
    Follows wasm rules endOffset root (.loop type body rest) := by
  intro s tail hroot htail h
  simp only [Code.flatten, cons_append, append_assoc] at h
  obtain ⟨n, n', callee, -, -, tail', -, heq, -⟩ := h.loop hsize
  obtain ⟨code₁, hcode₁, heq₁⟩ := Code.eq_instr_of_flatten rfl heq
  obtain ⟨code₂, hcode₂, heq₂⟩ := Code.eq_instr_of_flatten rfl heq₁
  obtain ⟨code₃, hcode₃, -⟩ := Code.eq_instr_of_flatten rfl heq₂
  rw [hcode₂, hcode₃] at hcode₁
  exact absurd hcode₁ (hbody _ _ _ _ _ _ _)

end

end

/-- **The scan follows code** without zero-extending loads or negative bounds. -/
theorem follows (hsize : wasm.length < 0x80000000) (rules : GuardRules)
    (endOffset : Int) (root : Block) (code : Code)
    (hzero : ∀ i ∈ code.flatten, isZeroLoad i = false) (hbou : code.boundsNonneg = true) :
    Follows wasm rules endOffset root code := by
  induction code using Code.allowances.induct with
  | case1 => exact .done
  | case2 i plain rest ih =>
    rw [Code.flatten, forall_mem_cons] at hzero
    exact (ih hzero.2 hbou).instr hsize hzero.1
  | case3 type body rest ihbody ihrest =>
    simp only [Code.boundsNonneg, Bool.and_eq_true] at hbou
    simp only [Code.flatten, forall_mem_cons, forall_mem_append] at hzero
    exact .enclosing hsize (.inl rfl) (ihbody hzero.2.1 hbou.1) (ihrest hzero.2.2.2 hbou.2) rfl rfl
      rfl .block
  | case4 type first h₁ second h₂ call h₃ code rest ihcode ihrest =>
    simp only [Code.boundsNonneg, Bool.and_eq_true, decide_eq_true_eq] at hbou
    simp only [Code.flatten, cons_append, forall_mem_cons, forall_mem_append]
      at hzero
    obtain ⟨-, -, -, -, hcode, -, hrest⟩ := hzero
    exact (ihcode hcode hbou.1.2).loop hsize hbou.1.1 (ihrest hrest hbou.2)
  | case5 type body rest hbody ihrest =>
    exact .of_unguarded hsize hbody
  | case6 type yes rest ihyes ihrest =>
    simp only [Code.boundsNonneg, Bool.and_eq_true] at hbou
    simp only [Code.flatten, forall_mem_cons, forall_mem_append] at hzero
    exact .enclosing hsize (.inr rfl) (ihyes hzero.2.1 hbou.1) (ihrest hzero.2.2.2 hbou.2) rfl rfl
      rfl .cond
  | case7 type yes no rest ihyes ihno ihrest =>
    simp only [Code.boundsNonneg, Bool.and_eq_true] at hbou
    simp only [Code.flatten, forall_mem_cons, forall_mem_append] at hzero
    obtain ⟨-, hyes, -, hno, -, hrest⟩ := hzero
    exact (ihyes hyes hbou.1.1).condElse hsize (ihno hno hbou.1.2) (ihrest hrest hbou.2)

/-! ## Runs of a checked body -/

/-- The bytes of a body; an end that is not positive is that of the module. -/
def bodyBytes (wasm : List UInt8) (startOffset : Nat) (endOffset : Int) : List UInt8 :=
  (wasm.take (if endOffset ≤ 0 then wasm.length else endOffset.toNat)).drop startOffset

theorem total_of_checkGuard (scale : Nat → Nat → Nat → Nat)
    (hsize : wasm.length < 0x80000000) {startOffset : Nat} {endOffset : Int} {rules : GuardRules}
    {checked : CheckedBody} (h : checkGuard scale wasm startOffset endOffset rules = .ok checked)
    {instrs : List (Nat × Instr)}
    (hdec : decodeExpr startOffset (bodyBytes wasm startOffset endOffset) = some instrs)
    (hcode : instrs.map Prod.snd = code.flatten ++ [endInstr])
    (hzero : ∀ i ∈ code.flatten, isZeroLoad i = false) (hbou : code.boundsNonneg = true) :
    checked.root.total = code.own + code.work + 1 ∧
      Covered (isGuardIdx rules) code.allowances code := by
  have hdeco : Decoded startOffset (bodyBytes wasm startOffset endOffset) instrs := ⟨_, _, hdec⟩
  have hpos : 0 < (bodyBytes wasm startOffset endOffset).length :=
    length_pos_iff.mpr hdeco.ne_nil
  have hpre : bodyBytes wasm startOffset endOffset <+: wasm.drop startOffset := by
    rw [bodyBytes, drop_take]
    exact take_prefix _ _
  have hsca : Scanning wasm rules (if endOffset ≤ 0 then (wasm.length : Int) else endOffset)
      checked.root (.init startOffset) (code.flatten ++ [endInstr]) :=
    ⟨_, startOffset, _, _, instrs, scanLoop_of_checkGuard scale h, hpre, end_of_bytes hpos rfl,
      hdeco, hcode⟩
  obtain ⟨s', hlast, hadv, hcov⟩ :=
    follows hsize rules _ checked.root code hzero hbou (fun _ => rfl) (by simp) hsca
  have hroot := hlast.root_eq hsize hadv.parents
  refine ⟨?_, hcov⟩
  have hinit : (init startOffset).current.total = 0 := by
    rw [init, OpenBlock.total]
    simp [totals]
  have hone : (init startOffset).current.iterationBound = 1 := rfl
  rw [hroot, OpenBlock.total_close, OpenBlock.total_countInstr, hadv.total, hadv.bound, hinit, hone]
  omega

/-- **The runs of a checked body** without zero-extending loads. Without loops no run executes more
than the total. With loops whose bounds are not written as negative numbers, a run may execute four
more for each start: the opcode and the guard. -/
theorem runs_le_total (scale : Nat → Nat → Nat → Nat) (wasm : List UInt8)
    (hsize : wasm.length < 0x80000000) (startOffset : Nat) (endOffset : Int) (rules : GuardRules)
    (checked : CheckedBody) (h : checkGuard scale wasm startOffset endOffset rules = .ok checked)
    (instrs : List (Nat × Instr))
    (hdec : decodeExpr startOffset (bodyBytes wasm startOffset endOffset) = some instrs)
    (hzero : ∀ p ∈ instrs, isZeroLoad p.2 = false) :
    (∃ code : Code, instrs.map Prod.snd = code.flatten ++ [endInstr]) ∧
    ∀ code : Code, instrs.map Prod.snd = code.flatten ++ [endInstr] →
      (code.loopFree = true → ∀ stack n, Runs (isGuardIdx rules) code ⟨fun _ => 0, stack⟩ n →
        n ≤ checked.root.total) ∧
      (code.boundsNonneg = true → ∀ stack n, Runs (isGuardIdx rules) code ⟨fun _ => 0, stack⟩ n →
        n ≤ checked.root.total + 4 * code.starts + 4) := by
  refine ⟨exists_code hdec, fun code hcode => ?_⟩
  have hflat : ∀ i ∈ code.flatten, isZeroLoad i = false := by
    intro i hi
    have hmem : i ∈ instrs.map Prod.snd := by
      rw [hcode]
      exact mem_append_left _ hi
    obtain ⟨p, hp, rfl⟩ := mem_map.mp hmem
    exact hzero p hp
  refine ⟨fun hfree stack n hrun => ?_, fun hbounds stack n hrun => ?_⟩
  · obtain ⟨hnone, hbounds⟩ := Code.allowances_of_loopFree hfree
    obtain ⟨htotal, hcovered⟩ := total_of_checkGuard scale hsize h hdec hcode hflat hbounds
    have hcost : ∀ loop ∈ code.allowances, 4 ≤ 0 := by
      rw [hnone]
      exact nofun
    have hcount := hrun.count_le hcovered hcost
    have hstarts : code.starts = 0 := by
      rw [Code.starts, hnone]
      rfl
    omega
  · obtain ⟨htotal, hcovered⟩ := total_of_checkGuard scale hsize h hdec hcode hflat hbounds
    have hcount := hrun.count_le hcovered fun _ _ => Nat.le_refl 4
    omega

/-- A guarded loop with some instructions after its guard, and the constant zero. -/
def loopCode (bound : Int) (code : Code) : Code :=
  .loop [64] (.instr ⟨0x41, none, [1]⟩ rfl (.instr ⟨0x41, none, [bound]⟩ rfl
    (.instr ⟨0x10, none, [0]⟩ rfl code))) (.instr ⟨0x42, none, [0]⟩ rfl .done)

/-- The rules for a module whose only import is the guard function. -/
def onlyGuard : GuardRules := ⟨0, 0, 3⟩

theorem exec_guard (stack : List Nat) (hle : guards 1 + 1 ≤ word bound)
    (h : Exec (isGuardIdx onlyGuard) code ⟨update guards 1 (guards 1 + 1), 1 :: stack⟩ n m o) :
    Exec (isGuardIdx onlyGuard) (.instr ⟨0x41, none, [1]⟩ rfl (.instr ⟨0x41, none, [bound]⟩ rfl
      (.instr ⟨0x10, none, [0]⟩ rfl code))) ⟨guards, stack⟩ (1 + (1 + (1 + n))) m o :=
  .next (.const rfl rfl) (.next (.const rfl rfl) (.next (.pass rfl hle) h))

theorem exec_drop {m' : Machine} (stack : List Nat)
    (h : Exec (isGuardIdx onlyGuard) code ⟨m.guards, stack⟩ n m' o) :
    Exec (isGuardIdx onlyGuard) (.instr ⟨0x1A, none, []⟩ rfl code) m (1 + n) m' o :=
  .next (.other (by decide) rfl stack) h

theorem exec_br : Exec (isGuardIdx onlyGuard)
    (.instr ⟨0x0C, none, [0]⟩ rfl code) m 1 ⟨m.guards, []⟩ (.branch 0) := by
  have hstep : Step (isGuardIdx onlyGuard) ⟨0x0C, none, [0]⟩ m ⟨m.guards, []⟩
      (.branch (0 : Int).toNat) := .br rfl (mem_singleton_self 0) []
  exact .jump hstep nofun

/-- The body of the module with a guarded loop, whose guard has the given bound. -/
def dropCode (bound : Int) : Code := loopCode bound (.instr ⟨0x1A, none, []⟩ rfl .done)

theorem runs_dropCode (hbound : 1 ≤ word bound) :
    Runs (isGuardIdx onlyGuard) (dropCode bound) ⟨fun _ => 0, []⟩ 8 :=
  .ended (.loopEnd (exec_guard [] hbound (exec_drop [] .done)) []
    (.next (.other (by decide) rfl [0]) .done))

/-- A loop that branches to itself after its guard. -/
def spinCode (bound : Int) : Code :=
  loopCode bound (.instr ⟨0x1A, none, []⟩ rfl (.instr ⟨0x0C, none, [0]⟩ rfl .done))

theorem exec_spinCode (k : Nat) (stack : List Nat) (hle : guards 1 + k ≤ word bound) :
    ∃ m, Exec (isGuardIdx onlyGuard) (spinCode bound) ⟨guards, stack⟩ (6 * k) m .stopped := by
  induction k generalizing guards stack with
  | zero => exact ⟨_, .stop⟩
  | succ k ih =>
    have hcount : update guards 1 (guards 1 + 1) 1 + k ≤ word bound := by
      rw [update_self]
      omega
    have hpass : guards 1 + 1 ≤ word bound := by omega
    obtain ⟨m, hm⟩ := ih [] hcount
    have haga := Exec.again (exec_guard stack hpass (exec_drop [] exec_br)) [] hm
    refine ⟨m, ?_⟩
    rw [Nat.mul_succ, Nat.add_comm]
    exact haga

/-- The module with a guarded loop: a run of it, and what no run exceeds. -/
theorem loopModule_runs :
    ∃ checked, checkGuard exactScale (loopModule 0x0A) 53 66 onlyGuard = .ok checked ∧
      checked.root.total = 23 ∧
      Runs (isGuardIdx onlyGuard) (dropCode 10) ⟨fun _ => 0, []⟩ 8 ∧
      ∀ stack n, Runs (isGuardIdx onlyGuard) (dropCode 10) ⟨fun _ => 0, stack⟩ n →
        n ≤ 23 + 4 * 10 + 4 := by
  have hchecked : ∃ checked, checkGuard exactScale (loopModule 0x0A) 53 66 onlyGuard = .ok checked ∧
      checked.root.total = 23 := by
    decide +kernel
  obtain ⟨checked, hchecked, htotal⟩ := hchecked
  have hdec : decodeExpr 53 (bodyBytes (loopModule 0x0A) 53 66) = some loopInstrs := by
    decide +kernel
  refine ⟨checked, hchecked, htotal, runs_dropCode (by decide), fun stack n hrun => ?_⟩
  have hle := ((runs_le_total exactScale (loopModule 0x0A) (by decide) 53 66 onlyGuard checked
    hchecked loopInstrs hdec (by decide +kernel)).2 (dropCode 10) rfl).2 rfl stack n hrun
  rw [htotal] at hle
  exact hle

/-- A function that branches to its loop for ever, but for the guard with bound minus 64. -/
def spinBody : List UInt8 :=
  [0x03, 0x40, 0x41, 0x01, 0x41, 0x40, 0x10, 0x00, 0x1A, 0x0C, 0x00, 0x0B, 0x42, 0x00, 0x0B]

/-- **More is executed than recorded.** The first loop may start once; the total is five, and a run
executes eight instructions. The bound of the second is recorded as 64; the total is 195, and runs
execute thousands of millions. -/
theorem runs_exceed_total :
    (∃ checked, checkGuard exactScale (loopModule 0x01) 53 66 onlyGuard = .ok checked ∧
      checked.root.total = 5 ∧
      (decodeExpr 53 (bodyBytes (loopModule 0x01) 53 66)).map (List.map Prod.snd)
        = some ((dropCode 1).flatten ++ [endInstr]) ∧
      Runs (isGuardIdx onlyGuard) (dropCode 1) ⟨fun _ => 0, []⟩ 8) ∧
    (∃ checked, checkGuard exactScale spinBody 0 15 onlyGuard = .ok checked ∧
      checked.root.total = 195 ∧
      (decodeExpr 0 (bodyBytes spinBody 0 15)).map (List.map Prod.snd)
        = some ((spinCode (-64)).flatten ++ [endInstr]) ∧
      Runs (isGuardIdx onlyGuard) (spinCode (-64)) ⟨fun _ => 0, []⟩ (6 * 0xFFFFFFC0)) := by
  have hdrop : ∃ checked, checkGuard exactScale (loopModule 0x01) 53 66 onlyGuard = .ok checked ∧
      checked.root.total = 5 := by
    decide +kernel
  have hspin : ∃ checked, checkGuard exactScale spinBody 0 15 onlyGuard = .ok checked ∧
      checked.root.total = 195 := by
    decide +kernel
  obtain ⟨checked, hchecked, htotal⟩ := hdrop
  obtain ⟨checked', hchecked', htotal'⟩ := hspin
  have hrun : ∃ m, Exec (isGuardIdx onlyGuard) (spinCode (-64)) ⟨fun _ => 0, []⟩ (6 * 0xFFFFFFC0) m
      .stopped := exec_spinCode 0xFFFFFFC0 [] (by decide)
  obtain ⟨m, hm⟩ := hrun
  exact ⟨⟨checked, hchecked, htotal, by decide +kernel, runs_dropCode (by decide)⟩,
    checked', hchecked', htotal', by decide +kernel, .left hm nofun⟩

end Xahau.Guard
