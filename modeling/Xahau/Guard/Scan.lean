import Xahau.Data.Wasm
import Xahau.Guard.Imports

/-! # The scan against the instruction grammar

`check_guard` passes over immediates with a table of its own. On a body that the grammar of
WebAssembly decodes (`Wasm.decodeExpr`), the scan visits exactly the decoded instructions, unless
there is a `v128.load32_zero` or `v128.load64_zero`, whose memory operands it takes for
instructions. -/

namespace Xahau.Guard

open Checked (bind_eq_ok of_check)

open Leb128 List Option Wasm

variable {root : Block} {rules : GuardRules} {endOffset : Int} {instrs : List (Nat × Instr)}
  {visited : List (Nat × Scanned)} {fs : List Field} {vs : List Int} {fuel instr v : Nat}
  {s : ScanState} {scanned : Scanned}

/-! ## Numbers in both readings -/

variable {l wasm : List UInt8}

theorem raw_of_prefixed {bytes : List UInt8} {p : Nat × Nat} (hl : l <+: bytes)
    (h : raw l = some p) : raw bytes = some p := by
  obtain ⟨tail, rfl⟩ := hl
  exact raw_append h tail

theorem prefixed_drop {i : Nat} (hl : l <+: wasm.drop i) (k : Nat) :
    l.drop k <+: wasm.drop (i + k) := by
  rw [← drop_drop]
  obtain ⟨tail, htail⟩ := hl
  rw [← htail, drop_append]
  exact prefix_append _ _

section

variable {wasm l : List UInt8} {i j k : Nat}

theorem parseLeb128_unsigned {u : Nat} (hl : l <+: wasm.drop i)
    (hu : unsigned 32 l = some (u, k)) (h : parseLeb128 wasm i = .ok (v, j)) :
    j = i + k ∧ v = u := by
  obtain ⟨hraw, hlt⟩ := raw_of_unsigned (by decide) hu
  obtain ⟨hj, hv⟩ := parseLeb128_eq (raw_of_prefixed hl hraw) h
  refine ⟨hj, ?_⟩
  rw [hv]
  exact Nat.mod_eq_of_lt (by omega)

variable {f : Field} {decoded : Instr} {n : Int} {skips : List Skip} {guard : LoopGuard}
  {bits count : Nat}

section

variable (hbits : 0 < bits) (hl : l <+: wasm.drop i) (hn : Leb128.signed bits l = some (n, k))

include hbits hl hn

theorem parseLeb128_signed (h : parseLeb128 wasm i = .ok (v, j)) : j = i + k := by
  obtain ⟨u, hraw, -⟩ := raw_of_signed hbits hn
  exact (parseLeb128_eq (raw_of_prefixed hl hraw) h).1

theorem parseSignedLeb128_signed {v : Int}
        (h : parseSignedLeb128 wasm i = .ok (v, j)) : j = i + k := by
  obtain ⟨u, hraw, -⟩ := raw_of_signed hbits hn
  exact parseSignedLeb128_eq (raw_of_prefixed hl hraw) h

end

/-! ## Immediates in both readings -/

/-- Whether passing over `skips` takes as many bytes as the immediates `fs`. -/
def aligned : List Field → List Skip → Bool
  | fs, .require _ :: skips => aligned fs skips
  | .u32 :: fs, .leb :: skips => aligned fs skips
  | .s32 :: fs, .leb :: skips => aligned fs skips
  | .s64 :: fs, .leb :: skips => aligned fs skips
  | .bytes n :: fs, .advance m :: skips => n == m && aligned fs skips
  | .zero :: fs, .advance 1 :: skips => aligned fs skips
  | .zero :: .zero :: fs, .advance 2 :: skips => aligned fs skips
  | [], [] => true
  | _, _ => false

theorem parseLeb128_field (hf : f = .u32 ∨ f = .s32 ∨ f = .s64) (hl : l <+: wasm.drop i)
    (hd : f.decode l = some (vs, k)) (h : parseLeb128 wasm i = .ok (v, j)) : j = i + k := by
  rcases hf with rfl | rfl | rfl
  · obtain ⟨⟨u, a⟩, hu, heq⟩ := map_eq_some_iff.mp hd
    cases heq
    exact (parseLeb128_unsigned hl hu h).1
  · obtain ⟨⟨n, a⟩, hn, heq⟩ := map_eq_some_iff.mp hd
    cases heq
    exact parseLeb128_signed (by decide) hl hn h
  · obtain ⟨⟨n, a⟩, hn, heq⟩ := map_eq_some_iff.mp hd
    cases heq
    exact parseLeb128_signed (by decide) hl hn h

theorem length_of_decode_zero (h : Field.zero.decode l = some (vs, k)) : k = 1 := by
  cases l with
  | nil => simp [Field.decode] at h
  | cons b l =>
    rw [Field.decode] at h
    split at h
    · cases h
      rfl
    · cases h

theorem length_of_decode_bytes {n : Nat} (h : (Field.bytes n).decode l = some (vs, k)) : k = n := by
  rw [Field.decode] at h
  split at h
  · cases h
    rfl
  · cases h

theorem runSkips_of_aligned (ha : aligned fs skips = true) (hl : l <+: wasm.drop i)
    (hd : decodeFields fs l = some (vs, k)) (h : runSkips wasm skips i = .ok j) : j = i + k := by
  induction fs, skips using aligned.induct generalizing l i vs k with
  | case1 fs n skips ih =>
    rw [aligned] at ha
    replace h := of_check h
    exact ih ha hl hd h
  | case2 fs skips ih | case3 fs skips ih | case4 fs skips ih =>
    rw [aligned] at ha
    obtain ⟨ws, a, xs, b, hf, hfs, rfl, rfl⟩ := decodeFields_cons hd
    obtain ⟨⟨v, m⟩, hleb, h⟩ := bind_eq_ok.mp h
    obtain rfl := parseLeb128_field (by decide) hl hf hleb
    rw [ih ha (prefixed_drop hl a) hfs h, Nat.add_assoc]
  | case5 n fs m skips ih =>
    rw [aligned, Bool.and_eq_true, beq_iff_eq] at ha
    obtain ⟨rfl, ha⟩ := ha
    obtain ⟨ws, a, xs, b, hf, hfs, rfl, rfl⟩ := decodeFields_cons hd
    obtain rfl := length_of_decode_bytes hf
    rw [runSkips] at h
    rw [ih ha (prefixed_drop hl a) hfs h, Nat.add_assoc]
  | case6 fs skips ih =>
    rw [aligned] at ha
    obtain ⟨ws, a, xs, b, hf, hfs, rfl, rfl⟩ := decodeFields_cons hd
    obtain rfl := length_of_decode_zero hf
    rw [runSkips] at h
    rw [ih ha (prefixed_drop hl 1) hfs h, Nat.add_assoc]
  | case7 fs skips ih =>
    rw [aligned] at ha
    obtain ⟨ws, a, xs, b, hf, hfs, rfl, rfl⟩ := decodeFields_cons hd
    obtain rfl := length_of_decode_zero hf
    obtain ⟨ws', c, xs', d, hf', hfs', rfl, rfl⟩ := decodeFields_cons hfs
    obtain rfl := length_of_decode_zero hf'
    rw [runSkips] at h
    rw [drop_drop] at hfs'
    rw [ih ha (prefixed_drop hl 2) hfs' h]
    omega
  | case8 =>
    cases hd
    cases h
    rfl
  | case9 fs skips =>
    unfold aligned at ha
    split at ha <;> first | solve_by_elim | cases ha

theorem isBlockType_iff (b : UInt8) :
    ((0x7C ≤ b ∧ b ≤ 0x7F) ∨ b = 0x7B ∨ b = 0x70 ∨ b = 0x40 ∨ b = 0x6F) ↔
      (b = 0x40 ∨ isValType b = true) := by
  simp only [isValType, isRefType, Bool.or_eq_true, Bool.and_eq_true, decide_eq_true_eq,
    beq_iff_eq, UInt8.le_iff_toNat_le, ← UInt8.toNat_inj, UInt8.reduceToNat]
  omega

theorem skipBlockType_eq (hl : l <+: wasm.drop i)
    (hd : Field.blockType.decode l = some (vs, k)) (h : skipBlockType wasm i = .ok j) :
    j = i + k := by
  simp only [skipBlockType, bind_eq_ok] at h
  obtain ⟨-, -, b, hb, h⟩ := h
  cases l with
  | nil => simp [Field.decode] at hd
  | cons c l =>
    have hc : c = b := by
      rw [drop_of_byteAt hb] at hl
      exact (cons_prefix_cons.mp hl).1
    subst hc
    rw [Field.decode] at hd
    have htest := isBlockType_iff c
    split at hd
    next ht =>
      rw [if_pos (htest.mpr ht)] at h
      cases hd
      cases h
      rfl
    next ht =>
      rw [if_neg (htest.not.mpr ht)] at h
      simp only [bind_eq_bind, bind_eq_some_iff] at hd
      obtain ⟨⟨n, a⟩, hn, hd⟩ := hd
      obtain ⟨⟨v, m⟩, hleb, h⟩ := bind_eq_ok.mp h
      cases h
      split at hd
      · cases hd
        exact parseSignedLeb128_signed (by decide) hl hn hleb
      · cases hd

theorem skipLabels_eq (hl : l <+: wasm.drop i)
    (hd : decodeIndices count l = some (vs, k)) (h : skipLabels wasm count i = .ok j) :
    j = i + k := by
  induction count generalizing l i vs k with
  | zero =>
    cases hd
    cases h
    rfl
  | succ count ih =>
    simp only [decodeIndices, bind_eq_bind, bind_eq_some_iff] at hd
    obtain ⟨⟨u, a⟩, hu, ⟨ws, b⟩, hw, hd⟩ := hd
    cases hd
    simp only [skipLabels, bind_eq_ok] at h
    obtain ⟨-, -, ⟨v, m⟩, hleb, h⟩ := h
    obtain ⟨rfl, -⟩ := parseLeb128_unsigned hl hu hleb
    rw [ih (prefixed_drop hl a) hw h, Nat.add_assoc]

theorem skipTypes_eq (h : skipTypes wasm count i = .ok j) : j = i + count := by
  induction count generalizing i with
  | zero =>
    cases h
    rfl
  | succ count ih =>
    simp only [skipTypes, bind_eq_ok] at h
    obtain ⟨-, -, v, -, h⟩ := h
    split at h
    · rw [ih h]
      omega
    · cases h

theorem toInt_of_lt {n : Nat} (h : n < 0x80000000) : toInt n = n := by
  unfold toInt Int.bmod
  simp only []
  split <;> omega

/-- A branch table ends where the grammar says. Its count is an `int`, which no table of this size
exceeds. -/
theorem scanBranch_brTable (hsize : wasm.length < 0x80000000) (hl : l <+: wasm.drop i)
    (hd : Field.labels.decode l = some (vs, k))
    (h : scanBranch wasm rules instr i .brTable = .ok (scanned, j)) : j = i + k := by
  simp only [Field.decode, bind_eq_bind, bind_eq_some_iff] at hd
  obtain ⟨⟨count, a⟩, hcount, ⟨ws, b⟩, hw, ⟨u, c⟩, hu, hd⟩ := hd
  cases hd
  have hlt : count < 0x80000000 := by
    have h₁ := (length_of_decodeIndices hw).1
    have h₂ := (length_of_decodeIndices hw).2
    have h₃ := hl.length_le
    rw [length_drop] at h₂ h₃
    omega
  simp only [scanBranch, bind_eq_ok] at h
  obtain ⟨⟨n, m⟩, hn, m', hm', m'', hm'', h⟩ := h
  cases h
  obtain ⟨rfl, rfl⟩ := parseLeb128_unsigned hl hcount hn
  rw [toInt_of_lt hlt, Int.toNat_natCast] at hm'
  have hlab := skipLabels_eq (prefixed_drop hl a) hw hm'
  subst hlab
  simp only [runSkips, bind_eq_ok] at hm''
  obtain ⟨-, -, ⟨v, m⟩, hv, hm''⟩ := hm''
  cases hm''
  have hl' := prefixed_drop hl (a + b)
  rw [← Nat.add_assoc] at hl'
  rw [(parseLeb128_unsigned hl' hu hv).1]
  omega

/-! ## The tables -/

/-- Whether a branch of the scan passes over `fs`. Three branches reject; the prefixed groups have
their own tables. -/
def compatible (fs : List Field) : Branch → Bool
  | .skip skips => aligned fs skips
  | .block => fs == [.blockType]
  | .blockEnd => fs == []
  | .brTable => fs == [.labels]
  | .call => fs == [.u32]
  | .refNull => fs == [.refType]
  | .selectTypes => fs == [.valTypes]
  | .callIndirect => true
  | .memoryGrow => true
  | .unknown => true
  | .prefixFC => false
  | .vector => false

/-- **The opcode table of the scan is that of the grammar.** -/
theorem branchOf_compatible (b : UInt8) (h : fields b.toNat = some fs) :
    compatible fs (branchOf b.toNat) = true := by
  have htab : ∀ n < 256, (fields n).all (fun fs => compatible fs (branchOf n)) = true := by
    decide +kernel
  have hb := htab b.toNat b.toNat_lt
  rw [h] at hb
  exact hb

theorem skipsFC_aligned {rulesVersion fcType : Nat}
    (hfs : fieldsFC fcType = some fs) (h : skipsFC rulesVersion fcType = .ok skips) :
    aligned fs skips = true := by
  have hlt : fcType < 18 := by
    by_contra hge
    have hnone : fieldsFC fcType = none := by
      simp only [fieldsFC, mem_cons, not_mem_nil, or_false]
      repeat rw [if_neg (by omega)]
    rw [hnone] at hfs
    cases hfs
  by_cases hbulk : fcType = 10 ∨ fcType = 11
  · -- memory.copy and memory.fill pass under the older rules only
    cases hrul : rulesVersion.testBit 1 with
    | true =>
      rcases hbulk with rfl | rfl <;> simp [skipsFC, hrul, guardError] at h
    | false =>
      rcases hbulk with rfl | rfl <;> cases hfs <;> simp [skipsFC, hrul] at h <;> subst h <;> rfl
  · interval_cases fcType <;> first | omega | (cases hfs; cases h; rfl)

theorem skipsVector_aligned (hfs : fieldsFD v = some fs)
    (hv : v ≠ 92 ∧ v ≠ 93) : aligned fs (skipsVector v) = true := by
  have hlt : v < 256 := by
    by_contra hge
    have hnone : fieldsFD v = none := by
      simp only [fieldsFD, mem_cons, not_mem_nil, or_false]
      repeat rw [if_neg (by omega)]
    rw [hnone] at hfs
    cases hfs
  have htab : ∀ n < 256, n ≠ 92 ∧ n ≠ 93 →
      (fieldsFD n).all (fun fs => aligned fs (skipsVector n)) = true := by
    decide +kernel
  have hv' := htab v hlt hv
  rw [hfs] at hv'
  exact hv'

/-! ## One instruction -/

/-- `v128.load32_zero` and `v128.load64_zero`. -/
def isZeroLoad (instr : Instr) : Bool :=
  instr.opcode == 0xFD && (instr.sub == some 92 || instr.sub == some 93)

theorem decodeFields_singleton
    (h : decodeFields [f] l = some (vs, k)) : f.decode l = some (vs, k) := by
  obtain ⟨ws, a, xs, b, hf, hfs, rfl, rfl⟩ := decodeFields_cons h
  cases hfs
  simpa using hf

theorem scanBranch_eq {branch : Branch} (hsize : wasm.length < 0x80000000)
    (hblo : branch ≠ .block) (hc : compatible fs branch = true) (hl : l <+: wasm.drop i)
    (hd : decodeFields fs l = some (vs, k))
    (h : scanBranch wasm rules instr i branch = .ok (scanned, j)) : j = i + k := by
  cases branch with
  | block => exact absurd rfl hblo
  | prefixFC | vector => cases hc
  | callIndirect | unknown => cases h
  | memoryGrow =>
    replace h := of_check h
    cases h
  | skip skips =>
    obtain ⟨m, hm, h⟩ := bind_eq_ok.mp h
    cases h
    exact runSkips_of_aligned hc hl hd hm
  | blockEnd =>
    obtain rfl : fs = [] := by simpa [compatible] using hc
    cases hd
    cases h
    rfl
  | brTable =>
    obtain rfl : fs = [.labels] := by simpa [compatible] using hc
    exact scanBranch_brTable hsize hl (decodeFields_singleton hd) h
  | call =>
    obtain rfl : fs = [.u32] := by simpa [compatible] using hc
    obtain ⟨calleeIdx, -, hleb, -⟩ := scanBranch_call h
    exact parseLeb128_field (.inl rfl) hl (decodeFields_singleton hd) hleb
  | refNull =>
    obtain rfl : fs = [.refType] := by simpa [compatible] using hc
    have hk : k = 1 := by
      have hf := decodeFields_singleton hd
      cases l with
      | nil => simp [Field.decode] at hf
      | cons b l =>
        rw [Field.decode] at hf
        split at hf
        · cases hf
          rfl
        · cases hf
    simp only [scanBranch, bind_eq_ok] at h
    obtain ⟨-, -, t, -, h⟩ := h
    split at h
    · cases h
      rw [hk]
    · cases h
  | selectTypes =>
    obtain rfl : fs = [.valTypes] := by simpa [compatible] using hc
    have hf := decodeFields_singleton hd
    simp only [Field.decode, bind_eq_bind, bind_eq_some_iff] at hf
    obtain ⟨⟨count, a⟩, hcount, hf⟩ := hf
    simp only [scanBranch, bind_eq_ok] at h
    obtain ⟨-, -, ⟨n, m⟩, hn, m', hm', h⟩ := h
    cases h
    obtain ⟨rfl, rfl⟩ := parseLeb128_unsigned hl hcount hn
    split at hf
    · cases hf
      rw [skipTypes_eq hm', Nat.add_assoc]
    · cases hf

theorem scanBranch_prefixFC {opcode : Nat} (hl : l <+: wasm.drop i)
    (hd : decodePrefixed fieldsFC opcode l = some (decoded, k))
    (h : scanBranch wasm rules instr i .prefixFC = .ok (scanned, j)) :
    scanned = .plain ∧ j + 1 = i + k := by
  obtain ⟨sub, a, fs, vs, b, hsub, hfs, hflds, -, rfl⟩ := decodePrefixed_eq_some hd
  simp only [scanBranch, bind_eq_ok] at h
  obtain ⟨-, -, ⟨fcType, m⟩, hleb, -, -, skips, hski, m', hm', h⟩ := h
  cases h
  obtain ⟨rfl, rfl⟩ := parseLeb128_unsigned hl hsub hleb
  refine ⟨rfl, ?_⟩
  rw [runSkips_of_aligned (skipsFC_aligned hfs hski) (prefixed_drop hl a) hflds hm']
  omega

/-- A vector instruction in the scan: the operands of zero-extending loads are taken for
instructions. -/
theorem scanBranch_vector (hl : l <+: wasm.drop i)
    (hd : decodePrefixed fieldsFD 0xFD l = some (decoded, k))
    (h : scanBranch wasm rules instr i .vector = .ok (scanned, j)) :
    scanned = .plain ∧
      ((isZeroLoad decoded = true ∧ j + 1 < i + k) ∨
        (isZeroLoad decoded = false ∧ j + 1 = i + k)) := by
  obtain ⟨sub, a, fs, vs, b, hsub, hfs, hflds, rfl, rfl⟩ := decodePrefixed_eq_some hd
  simp only [scanBranch, bind_eq_ok] at h
  obtain ⟨-, -, ⟨v, m⟩, hleb, m', hm', h⟩ := h
  cases h
  obtain ⟨rfl, rfl⟩ := parseLeb128_unsigned hl hsub hleb
  refine ⟨rfl, ?_⟩
  by_cases hzero : v = 92 ∨ v = 93
  · -- nothing is passed over, but the grammar has two numbers here
    have hski : skipsVector v = [] := by rcases hzero with rfl | rfl <;> rfl
    have hnum : fs = [.u32, .u32] := by
      rcases hzero with rfl | rfl <;> exact (Option.some.inj hfs).symm
    rw [hski] at hm'
    cases hm'
    subst hnum
    obtain ⟨ws, c, xs, d, hf, -, rfl, rfl⟩ := decodeFields_cons hflds
    obtain ⟨⟨u, e⟩, hu, heq⟩ := map_eq_some_iff.mp hf
    cases heq
    have hpos := (length_of_unsigned (by decide) hu).1
    refine .inl ⟨by rcases hzero with rfl | rfl <;> rfl, by omega⟩
  · have hne : v ≠ 92 ∧ v ≠ 93 := by omega
    refine .inr ⟨by simp [isZeroLoad, hne.1, hne.2], ?_⟩
    rw [runSkips_of_aligned (skipsVector_aligned hfs hne) (prefixed_drop hl a) hflds hm']
    omega

/-- **One iteration against the grammar.** It stops inside a zero-extending load, goes over a loop
and its guard, or ends where the instruction ends. -/
theorem scanInstr_step {instr : Instr} (hsize : wasm.length < 0x80000000) (hl : l <+: wasm.drop i)
    (hd : decodeInstr l = some (instr, k)) (h : scanInstr wasm rules i = .ok (scanned, j)) :
    (isZeroLoad instr = true ∧ scanned = .plain ∧ j < i + k) ∨
      (isZeroLoad instr = false ∧ instr.opcode ≠ 0x03 ∧ (∀ guard, scanned ≠ .loop guard) ∧
        j = i + k) ∨
      (isZeroLoad instr = false ∧ instr.opcode = 0x03 ∧
        ∃ guard, scanned = .loop guard ∧ guard.Spec wasm rules (i + k) j) := by
  obtain ⟨b, hb, h⟩ := scanInstr_eq_ok h
  cases l with
  | nil => simp [decodeInstr] at hd
  | cons c l =>
    rw [drop_of_byteAt hb] at hl
    obtain ⟨rfl, hl'⟩ := cons_prefix_cons.mp hl
    by_cases hFC : c = 0xFC
    · subst hFC
      rw [decodeInstr, if_pos rfl] at hd
      obtain ⟨rfl, hj⟩ := scanBranch_prefixFC hl' hd h
      obtain ⟨sub, a, fs, vs, d, -, -, -, rfl, -⟩ := decodePrefixed_eq_some hd
      exact .inr (.inl ⟨rfl, by simp, by simp, by omega⟩)
    · by_cases hFD : c = 0xFD
      · subst hFD
        rw [decodeInstr, if_neg hFC, if_pos rfl] at hd
        obtain ⟨rfl, ⟨hzero, hlt⟩ | ⟨hzero, hj⟩⟩ := scanBranch_vector hl' hd h
        · exact .inl ⟨hzero, rfl, by omega⟩
        · obtain ⟨sub, a, fs, vs, d, -, -, -, rfl, -⟩ := decodePrefixed_eq_some hd
          exact .inr (.inl ⟨hzero, by simp, by simp, by omega⟩)
      · obtain ⟨fs, vs, a, hfs, hflds, rfl, rfl⟩ := decodeInstr_eq_some hFC hFD hd
        have hzero : isZeroLoad ⟨c.toNat, none, vs⟩ = false := by simp [isZeroLoad]
        have hc := branchOf_compatible c hfs
        by_cases hblo : branchOf c.toNat = .block
        · rw [hblo] at h hc
          obtain rfl : fs = [.blockType] := by simpa [compatible] using hc
          obtain ⟨m, hm, hcas⟩ := scanBranch_block h
          have hm' := skipBlockType_eq hl' (decodeFields_singleton hflds) hm
          rcases hcas with ⟨hne, rfl, rfl⟩ | ⟨hloop, guard, rfl, hguard⟩
          · exact .inr (.inl ⟨hzero, hne, by simp, by omega⟩)
          refine .inr (.inr ⟨hzero, hloop, guard, rfl, ?_⟩)
          rw [hm', Nat.add_assoc] at hguard
          exact hguard
        · have hne : c.toNat ≠ 0x03 := fun h3 => hblo (by rw [h3]; rfl)
          have hnol : ∀ guard, scanned ≠ .loop guard := by
            rintro guard rfl
            by_cases hcall : branchOf c.toNat = .call
            · rw [hcall] at h
              obtain ⟨calleeIdx, heq, -⟩ := scanBranch_call h
              cases heq
            · rcases scanBranch_plain hblo hcall h with heq | ⟨-, heq⟩ <;> cases heq
          refine .inr (.inl ⟨hzero, hne, hnol, ?_⟩)
          rw [scanBranch_eq hsize hblo hc hl' hflds h, Nat.add_assoc]

/-! ## A whole body -/

section

variable (hdec : Decoded i l instrs) (hl : l <+: wasm.drop i)

include hdec hl

theorem decoded_field {b : UInt8} {f : Field} (hb : byteAt wasm i = .ok b) (hFC : b ≠ 0xFC)
    (hFD : b ≠ 0xFD) (hend : b.toNat ≠ 0x0B) (hf : fields b.toNat = some [f]) :
    ∃ vs a tail, instrs = (i, ⟨b.toNat, none, vs⟩) :: tail ∧
      f.decode (l.drop 1) = some (vs, a) ∧ Decoded (i + (1 + a)) (l.drop (1 + a)) tail := by
  obtain ⟨instr, k, tail, hd, rfl, hnext⟩ := hdec.step
  cases l with
  | nil => simp [decodeInstr] at hd
  | cons c l =>
    rw [drop_of_byteAt hb] at hl
    obtain ⟨rfl, -⟩ := cons_prefix_cons.mp hl
    obtain ⟨fs, vs, a, hfs, hflds, rfl, rfl⟩ := decodeInstr_eq_some hFC hFD hd
    cases hf.symm.trans hfs
    exact ⟨vs, a, tail, rfl, decodeFields_singleton hflds, hnext.resolve_left fun h => hend h.1⟩

theorem decoded_const (hb : byteAt wasm i = .ok 0x41) :
    ∃ n a tail, instrs = (i, ⟨0x41, none, [n]⟩) :: tail ∧
      signed 32 (l.drop 1) = some (n, a) ∧ Decoded (i + (1 + a)) (l.drop (1 + a)) tail := by
  obtain ⟨vs, a, tail, rfl, hvs, hnext⟩ :=
    decoded_field hdec hl hb (by decide) (by decide) (by decide) rfl
  obtain ⟨⟨n, a⟩, hn, heq⟩ := map_eq_some_iff.mp hvs
  cases heq
  exact ⟨n, a, tail, rfl, hn, hnext⟩

theorem decoded_call (hb : byteAt wasm i = .ok 0x10) :
    ∃ (instr : Instr) (u a : Nat) (tail : List (Nat × Instr)),
      instrs = (i, instr) :: tail ∧ instr = ⟨0x10, none, [(u : Int)]⟩ ∧
      unsigned 32 (l.drop 1) = some (u, a) ∧ Decoded (i + (1 + a)) (l.drop (1 + a)) tail := by
  obtain ⟨vs, a, tail, rfl, hvs, hnext⟩ :=
    decoded_field hdec hl hb (by decide) (by decide) (by decide) rfl
  obtain ⟨⟨u, a⟩, hu, heq⟩ := map_eq_some_iff.mp hvs
  cases heq
  exact ⟨_, u, a, tail, rfl, rfl, hu, hnext⟩

/-- The positions of the instructions that an iteration goes over. -/
def Scanned.positions (i : Nat) : Scanned → List Nat
  | .loop guard => [i, guard.idAt, guard.boundAt, guard.callAt]
  | _ => [i]

/-- The positions of the instructions that the scan visits. -/
def positions (visited : List (Nat × Scanned)) : List Nat :=
  visited.flatMap fun p => p.2.positions p.1

/-- The instructions start with two `i32.const` and a call of the guard. -/
def startsWithGuard (isGuard : Int → Bool) : List (Nat × Instr) → Bool
  | (_, first) :: (_, second) :: (_, third) :: _ =>
    first.opcode == 0x41 && second.opcode == 0x41 && third.opcode == 0x10 &&
      match third.operands with
      | [callee] => isGuard callee
      | _ => false
  | _ => false

/-- Whether every `loop` is immediately followed by a guard. -/
def loopsGuarded (isGuard : Int → Bool) : List (Nat × Instr) → Bool
  | [] => true
  | (_, instr) :: rest =>
    (instr.opcode != 0x03 || startsWithGuard isGuard rest) && loopsGuarded isGuard rest

def noZeroLoads (instrs : List (Nat × Instr)) : Prop := ∀ p ∈ instrs, isZeroLoad p.2 = false

theorem decoded_guard (hguard : guard.Spec wasm rules i j) :
    ∃ n n' rest m,
      instrs = (i, ⟨0x41, none, [n]⟩) :: (guard.boundAt, ⟨0x41, none, [n']⟩) ::
        (guard.callAt, ⟨0x10, none, [(guard.callFuncIdx : Int)]⟩) :: rest ∧
      (∃ a a', guard.boundAt = i + a ∧ signed 32 ((l.drop a).drop 1) = some (n', a')) ∧
      guard.callFuncIdx < 0x100000000 ∧ j = i + m ∧ Decoded j (l.drop m) rest := by
  obtain ⟨n, a, rest, rfl, hn, hdec⟩ := decoded_const hdec hl hguard.id
  obtain ⟨v, hv⟩ := hguard.idNumber
  have hbound := parseSignedLeb128_signed (by decide) (prefixed_drop hl 1) hn hv
  rw [Nat.add_assoc] at hbound
  have hl₁ := prefixed_drop hl (1 + a)
  rw [← hbound] at hdec hl₁
  obtain ⟨n', a', rest, rfl, hn', hdec⟩ := decoded_const hdec hl₁ hguard.bound
  obtain ⟨v', hv', -⟩ := hguard.boundNumber
  have hcall := parseLeb128_signed (by decide) (prefixed_drop hl₁ 1) hn' hv'
  rw [Nat.add_assoc] at hcall
  have hl₂ := prefixed_drop hl₁ (1 + a')
  rw [← hcall] at hdec hl₂
  obtain ⟨third, u, a'', rest, rfl, hthi, hu, hdec⟩ := decoded_call hdec hl₂ hguard.call
  obtain ⟨hj, hfunc⟩ := parseLeb128_unsigned (prefixed_drop hl₂ 1) hu hguard.callNumber
  rw [Nat.add_assoc] at hj
  rw [← hj, drop_drop, drop_drop] at hdec
  have hlt := (raw_of_unsigned (by decide) hu).2
  rw [hthi, ← hfunc]
  refine ⟨n, n', rest, _, rfl, ⟨_, a', hbound, hn'⟩, ?_, ?_, hdec⟩ <;> omega

end

theorem positions_head (hi : (i : Int) < endOffset)
    (h : scanLoop wasm rules endOffset fuel s i = .ok (root, visited)) :
    ∃ rest, positions visited = i :: rest := by
  obtain ⟨scanned, j, next, rest, fuel', -, -, -, rfl, -⟩ := scanLoop_next hi h
  cases scanned with
  | loop guard => exact ⟨_, rfl⟩
  | _ => exact ⟨_, rfl⟩

theorem not_scanLoop_of_length_le (hi : (i : Int) < endOffset) (hlen : wasm.length ≤ i) :
    scanLoop wasm rules endOffset fuel s i ≠ .ok (root, visited) := by
  intro h
  obtain ⟨scanned, j, next, rest, fuel', -, hscan, -⟩ := scanLoop_next hi h
  obtain ⟨b, hb, -⟩ := scanInstr_eq_ok hscan
  have hget := byteAt_eq_ok.mp hb
  rw [List.getElem?_eq_none hlen] at hget
  cases hget

/-- The guard function as the operand of a call. -/
def isGuardIdx (rules : GuardRules) (callee : Int) : Bool :=
  callee == toUInt64 rules.guardFuncIdx && decide (callee < 0x100000000)

/-- The scan of the rest of a body visits what the decoding has just when there is no zero-extending
load, and then all loops are guarded. -/
def ScanAgrees (rules : GuardRules) (visited : List (Nat × Scanned))
    (instrs : List (Nat × Instr)) : Prop :=
  (positions visited = instrs.map Prod.fst ↔ noZeroLoads instrs) ∧
    (noZeroLoads instrs → loopsGuarded (isGuardIdx rules) instrs = true)

section

variable {instr first second : Instr} (hagr : ScanAgrees rules visited instrs)
  (hzero : isZeroLoad instr = false)

include hagr hzero

theorem ScanAgrees.cons (hop : instr.opcode ≠ 0x03) (hnol : ∀ guard, scanned ≠ .loop guard) :
    ScanAgrees rules ((i, scanned) :: visited) ((i, instr) :: instrs) := by
  have hposi : positions ((i, scanned) :: visited) = i :: positions visited := by
    cases scanned with
    | loop guard => exact absurd rfl (hnol guard)
    | _ => rfl
  have hno : noZeroLoads ((i, instr) :: instrs) ↔ noZeroLoads instrs := by
    simp [noZeroLoads, hzero]
  refine ⟨?_, fun h => ?_⟩
  · rw [hposi, map_cons, cons_inj_right, hno]
    exact hagr.1
  · have hrest := hagr.2 (hno.mp h)
    simp [loopsGuarded, hop, hrest]

theorem ScanAgrees.loop (hfirst : first.opcode = 0x41) (hsecond : second.opcode = 0x41)
    (hcall : guard.callFuncIdx = toUInt64 rules.guardFuncIdx)
    (hlt : guard.callFuncIdx < 0x100000000) :
    ScanAgrees rules ((i, .loop guard) :: visited)
      ((i, instr) :: (guard.idAt, first) :: (guard.boundAt, second) ::
        (guard.callAt, ⟨0x10, none, [(guard.callFuncIdx : Int)]⟩) :: instrs) := by
  have hno : noZeroLoads ((i, instr) :: (guard.idAt, first) :: (guard.boundAt, second) ::
      (guard.callAt, ⟨0x10, none, [(guard.callFuncIdx : Int)]⟩) :: instrs) ↔
        noZeroLoads instrs := by
    have hzero₁ : isZeroLoad first = false := by simp [isZeroLoad, hfirst]
    have hzero₂ : isZeroLoad second = false := by simp [isZeroLoad, hsecond]
    have hzero₃ : isZeroLoad ⟨0x10, none, [(guard.callFuncIdx : Int)]⟩ = false := rfl
    simp [noZeroLoads, hzero, hzero₁, hzero₂, hzero₃]
  refine ⟨?_, fun h => ?_⟩
  · have hposi : positions ((i, .loop guard) :: visited)
        = i :: guard.idAt :: guard.boundAt :: guard.callAt :: positions visited := rfl
    rw [hposi, hno]
    simpa using hagr.1
  have hrest := hagr.2 (hno.mp h)
  have hguard : isGuardIdx rules guard.callFuncIdx = true := by
    simp only [isGuardIdx, hcall, beq_self_eq_true, Bool.true_and, decide_eq_true_eq]
    omega
  simp [loopsGuarded, startsWithGuard, hfirst, hsecond, hguard, hrest]

end

/-- **The scan against the decoding of a body.** -/
theorem scanLoop_agrees (hsize : wasm.length < 0x80000000) (hl : l <+: wasm.drop i)
    (hend : endOffset = i + l.length ∨
      ((i : Int) + l.length < endOffset ∧ wasm.length ≤ i + l.length))
    (hdec : Decoded i l instrs) (h : scanLoop wasm rules endOffset fuel s i = .ok (root, visited)) :
    ScanAgrees rules visited instrs := by
  induction fuel generalizing i l s root visited instrs with
  | zero => simp [scanLoop] at h
  | succ fuel ih =>
    have hpos : 0 < l.length := length_pos_iff.mpr hdec.ne_nil
    obtain ⟨scanned, j, next, rest, fuel', ⟨⟩, hscan, -, rfl, hrest⟩ := scanLoop_next (by omega) h
    obtain ⟨instr, k, tail, hd, rfl, hnext⟩ := hdec.step
    have hk := length_of_decodeInstr hd
    -- once the end of an instruction is reached, the rest is the induction hypo
    have hcon : ∀ m, m ≤ l.length → ∀ tail', j = i + m → Decoded j (l.drop m) tail' →
        ScanAgrees rules rest tail' := by
      intro m hm tail' hj hdec'
      have hne : 0 < (l.drop m).length := length_pos_iff.mpr hdec'.ne_nil
      have hl' := prefixed_drop hl m
      rw [← hj] at hl'
      rw [length_drop] at hne
      rcases hrest with ⟨hstop, -⟩ | ⟨s', -, hrest⟩
      · omega
      refine ih hl' ?_ hdec' hrest
      rw [length_drop]
      omega
    rcases scanInstr_step hsize hl hd hscan with
      ⟨hzero, rfl, hjk⟩ | ⟨hzero, hop, hnol, hj⟩ | ⟨hzero, hop, guard, rfl, hguard⟩
    · -- the next position visited lies inside the load
      have hfal : ¬ noZeroLoads ((i, instr) :: tail) := fun hno => by
        have := hno (i, instr) (mem_cons_self ..)
        rw [hzero] at this
        cases this
      refine ⟨iff_of_false ?_ hfal, fun hno => absurd hno hfal⟩
      intro heq
      have htail : positions rest = tail.map Prod.fst := (List.cons.inj heq).2
      rcases hrest with ⟨hstop, -⟩ | ⟨s', -, hrest⟩
      · omega
      obtain ⟨more, hmore⟩ := positions_head (by omega) hrest
      rw [hmore] at htail
      rcases hnext with ⟨-, -, rfl⟩ | hnext
      · cases htail
      obtain ⟨instr', k', tail', -, rfl, -⟩ := hnext.step
      have hhead : j = i + k := (List.cons.inj htail).1
      omega
    · rcases hnext with ⟨-, hdrop, rfl⟩ | hnext
      · have hlen : l.length ≤ k := by simpa using hdrop
        obtain rfl : rest = [] := by
          rcases hrest with ⟨-, rfl, -⟩ | ⟨s', -, hrest⟩
          · rfl
          by_cases hjend : (j : Int) < endOffset
          · exact absurd hrest (not_scanLoop_of_length_le hjend (by omega))
          cases fuel with
          | zero => simp [scanLoop] at hrest
          | succ fuel =>
            rw [scanLoop, if_pos (by omega)] at hrest
            cases hrest
            rfl
        exact ScanAgrees.cons ⟨by simp [positions, noZeroLoads], fun _ => rfl⟩ hzero hop hnol
      · rw [← hj] at hnext
        exact (hcon k hk.2 tail hj hnext).cons hzero hop hnol
    · rcases hnext with ⟨hop', -⟩ | hnext
      · omega
      · obtain ⟨n, n', tail', m, rfl, -, hlt, hj, hdec'⟩ :=
          decoded_guard hnext (prefixed_drop hl k) hguard
        have hm : k + m ≤ l.length := by
          have hne := length_pos_iff.mpr hdec'.ne_nil
          rw [length_drop, length_drop] at hne
          omega
        rw [drop_drop] at hdec'
        rw [← hguard.idAt]
        exact (hcon (k + m) hm tail' (by omega) hdec').loop hzero rfl rfl
          hguard.callFuncIdx hlt

end

/-! ## Accepted modules -/

/-- Where a body ends; if not positive, at the end of the module. -/
def Body.stop (wasm : List UInt8) (body : Body) : Nat :=
  if body.endOffset ≤ 0 then wasm.length else body.endOffset.toNat

def Body.bytes (wasm : List UInt8) (body : Body) : List UInt8 :=
  (wasm.take (body.stop wasm)).drop body.startOffset

theorem end_of_bytes {startOffset : Nat} (hpos : 0 < l.length)
    (hl : l = (wasm.take (if endOffset ≤ 0 then wasm.length else endOffset.toNat)).drop
      startOffset) :
    (if endOffset ≤ 0 then (wasm.length : Int) else endOffset) = startOffset + l.length ∨
      ((startOffset : Int) + l.length < (if endOffset ≤ 0 then (wasm.length : Int) else endOffset) ∧
        wasm.length ≤ startOffset + l.length) := by
  subst hl
  by_cases hend : endOffset ≤ 0
  · simp only [length_drop, length_take, hend, if_true] at hpos ⊢
    omega
  · simp only [length_drop, length_take, hend, if_false] at hpos ⊢
    omega

/-- Whether a function index is that of an import named `_g`. -/
def FirstPass.isGuard (st : FirstPass) (callee : Int) : Bool :=
  decide (0 ≤ callee) &&
    match st.imports[callee.toNat]? with
    | some func => func.name == "_g"
    | none => false

theorem loopsGuarded_mono {p q : Int → Bool} (hpq : ∀ c, p c = true → q c = true)
    (h : loopsGuarded p instrs = true) : loopsGuarded q instrs = true := by
  have hsta : ∀ instrs, startsWithGuard p instrs = true → startsWithGuard q instrs = true := by
    intro instrs hp
    unfold startsWithGuard at hp ⊢
    split at hp
    · simp only [Bool.and_eq_true] at hp ⊢
      refine ⟨hp.1, ?_⟩
      split at hp
      · simpa using hpq _ hp.2
      · exact absurd hp.2 (by simp)
    · cases hp
  induction instrs with
  | nil => rfl
  | cons head rest ih =>
    simp only [loopsGuarded, Bool.and_eq_true, Bool.or_eq_true] at h ⊢
    exact ⟨h.1.imp_right (hsta rest), ih h.2⟩

theorem isGuard_of_isGuardIdx {rulesVersion : Nat} {first : FirstPass}
    (hfirst : firstPass wasm rulesVersion = .ok first) (callee : Int)
    (h : isGuardIdx ⟨first.guardImportNumber, first.lastImportNumber, rulesVersion⟩ callee
      = true) : first.isGuard callee = true := by
  simp only [isGuardIdx, Bool.and_eq_true, beq_iff_eq, decide_eq_true_eq] at h
  rcases firstPassLoop_imports (fun _ => rfl) hfirst with ⟨-, hguard⟩ | ⟨-, hs⟩
  · obtain ⟨⟨n, func, hnum, hget, hname⟩, -, hlen⟩ := hguard
    have hn : n < first.imports.length := (List.getElem?_eq_some_iff.mp hget).1
    rw [hnum, toUInt64_of_lt (by omega)] at h
    obtain ⟨rfl, -⟩ := h
    simp [FirstPass.isGuard, hget, hname]
  · -- without imports the number is `-1`, which no operand is
    have hnum : first.guardImportNumber = -1 := hs.guard
    rw [hnum] at h
    have hval : toUInt64 (-1) = 0xFFFFFFFFFFFFFFFF := by decide
    rw [hval] at h
    omega

/-- **The scan of an accepted module.** In every body that the grammar decodes, the scan visits
exactly the instructions of the decoding, with every loop guarded by `_g`, iff there is no
zero-extending load. -/
theorem validateGuards_scan_iff (scale : Nat → Nat → Nat → Nat) (wasm : List UInt8)
    (rulesVersion : Nat) (report : Report)
    (h : validateGuards scale wasm rulesVersion = .ok report) (body : Body)
    (hbody : body ∈ report.bodies) (instrs : List (Nat × Instr))
    (hdec : decodeExpr body.startOffset (body.bytes wasm) = some instrs) :
    (positions body.checked.visited = instrs.map Prod.fst ∧
      loopsGuarded report.first.isGuard instrs = true) ↔
      ∀ p ∈ instrs, isZeroLoad p.2 = false := by
  obtain ⟨hfirst, hbodies⟩ := validateGuards_spec h
  have hsize := length_lt_of_validateGuards h
  have hscan := scanLoop_of_checkGuard scale (hbodies body hbody)
  have hdecoded : Decoded body.startOffset (body.bytes wasm) instrs := ⟨_, _, hdec⟩
  have hpos : 0 < (body.bytes wasm).length := length_pos_iff.mpr hdecoded.ne_nil
  have hprefix : body.bytes wasm <+: wasm.drop body.startOffset := by
    rw [Body.bytes, drop_take]
    exact take_prefix _ _
  have hagree := scanLoop_agrees hsize hprefix (end_of_bytes hpos rfl) hdecoded hscan
  constructor
  · rintro ⟨hpositions, -⟩
    exact hagree.1.mp hpositions
  · intro hno
    exact ⟨hagree.1.mpr hno, loopsGuarded_mono (isGuard_of_isGuardIdx hfirst) (hagree.2 hno)⟩

/-- The instructions of the module with a guarded loop. -/
def loopInstrs : List (Nat × Instr) :=
  [(53, ⟨3, none, [64]⟩), (55, ⟨65, none, [1]⟩), (57, ⟨65, none, [10]⟩), (59, ⟨16, none, [0]⟩),
    (61, ⟨26, none, []⟩), (62, ⟨11, none, []⟩), (63, ⟨66, none, [0]⟩), (65, ⟨11, none, []⟩)]

/-- The guarded loop is visited as it is decoded. -/
theorem loopModule_scan :
    ∃ report, validateGuards exactScale (loopModule 0x0A) 3 = .ok report ∧
      ∃ body ∈ report.bodies, ∃ instrs,
        decodeExpr body.startOffset (body.bytes (loopModule 0x0A)) = some instrs ∧
        positions body.checked.visited = instrs.map Prod.fst ∧
        loopsGuarded report.first.isGuard instrs = true := by
  obtain ⟨report, hreport, body, hbody, hdec⟩ : ∃ report,
      validateGuards exactScale (loopModule 0x0A) 3 = .ok report ∧ ∃ body ∈ report.bodies,
        decodeExpr body.startOffset (body.bytes (loopModule 0x0A)) = some loopInstrs := by
    decide +kernel
  exact ⟨report, hreport, body, hbody, loopInstrs, hdec,
    (validateGuards_scan_iff exactScale _ 3 report hreport body hbody _ hdec).mpr
      (by decide +kernel)⟩

/-- A `hook` with an unguarded loop after two zero-extending loads: `v128.load32_zero offset=64`,
`drop`, `v128.load32_zero offset=65` and `loop (result i32) br 0 end`. -/
def hiddenLoopModule : List UInt8 :=
  header ++
  [0x01, 0x0C, 0x02, 0x60, 0x02, 0x7F, 0x7F, 0x01, 0x7F, 0x60, 0x01, 0x7F, 0x01, 0x7E] ++
  [0x02, 0x0A, 0x01, 0x03, 0x65, 0x6E, 0x76, 0x02, 0x5F, 0x67, 0x00, 0x00] ++
  [0x03, 0x02, 0x01, 0x01] ++ [0x05, 0x03, 0x01, 0x00, 0x01] ++
  [0x07, 0x08, 0x01, 0x04, 0x68, 0x6F, 0x6F, 0x6B, 0x00, 0x01] ++
  [0x0A, 0x1A, 0x01, 0x18, 0x00, 0x41, 0x00, 0xFD, 0x5C, 0x02, 0x40, 0x1A, 0x41, 0x00, 0xFD, 0x5C,
    0x00, 0x41, 0x03, 0x7F, 0x0C, 0x00, 0x0B, 0x1A, 0x1A, 0x42, 0x00, 0x0B]

/-- **An unguarded loop is accepted**: the operands of the first load are taken for a block, and
those of the second for a constant that swallows the loop. -/
theorem hiddenLoopModule_accepted :
    ∃ report, validateGuards exactScale hiddenLoopModule 3 = .ok report ∧
      ∃ body ∈ report.bodies, ∃ instrs,
        decodeExpr body.startOffset (body.bytes hiddenLoopModule) = some instrs ∧
        positions body.checked.visited ≠ instrs.map Prod.fst ∧
        loopsGuarded report.first.isGuard instrs = false := by
  decide +kernel

end Xahau.Guard
