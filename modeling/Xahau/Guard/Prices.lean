import Xahau.Guard.Execution

/-! # What the counts of an accepted module stand for

`validateGuards` returns the worst cases of `hook` and `cbak`, which `SetHook` turns into fees. A
body is compared with `hook` first, so that a function exported under both names is never counted as
`cbak`. -/

namespace Xahau.Guard

open Checked (bind_eq_ok)
open List ScanState

/-! ## Instructions count -/

def Block.instructionCount : Block → Nat
  | .mk _ count _ _ => count

/-- The instructions of the outermost block so far. -/
def ScanState.outerCount (s : ScanState) : Nat := (s.parents.getLast?.getD s.current).instructionCount

theorem instructionCount_root (s : ScanState) : s.root.instructionCount = s.outerCount := by
  suffices h : ∀ b : OpenBlock, (s.parents.foldl (fun inner outer => outer.addChild inner.close)
      b).instructionCount = (s.parents.getLast?.getD b).instructionCount from h s.current
  induction s.parents with
  | nil => exact fun b => rfl
  | cons p parents ih =>
    intro b
    rw [foldl_cons, ih, getLast?_cons]
    cases parents.getLast? <;> rfl

variable {scale : Nat → Nat → Nat → Nat} {wasm : List UInt8} {rules : GuardRules}

/-- Once an instruction of the outermost block was counted, it stays so. -/
theorem outerCount_account {endOffset : Int} {s : ScanState} {scanned : Scanned} {j : Nat}
    {next : ScanState ⊕ Block} (hs : s.parents = [] ∨ 0 < s.outerCount)
    (h : s.account rules endOffset j scanned = .ok next) :
    0 < next.elim ScanState.outerCount Block.instructionCount := by
  have hpos : 0 < (s.parents.getLast?.getD s.current.countInstr).instructionCount := by
    unfold outerCount at hs
    cases hpar : s.parents with
    | nil => exact Nat.succ_pos _
    | cons p parents =>
      rw [hpar, getLast?_cons] at hs
      rw [getLast?_cons]
      exact hs.resolve_left (cons_ne_nil p parents)
  have hopen : ∀ s' : ScanState, s'.parents = s.current.countInstr :: s.parents →
      0 < s'.outerCount := by
    intro s' hpar
    rw [outerCount, hpar, getLast?_cons]
    exact hpos
  have hplain : ∀ s' : ScanState, s'.current = s.current.countInstr ∧ s'.parents = s.parents →
      0 < s'.outerCount := by
    rintro s' ⟨hcur, hpar⟩
    rw [outerCount, hcur, hpar]
    exact hpos
  cases scanned with
  | plain =>
    obtain ⟨s', rfl, hs'⟩ := account_plain (.inl rfl) h
    exact hplain s' hs'
  | call calleeIdx =>
    obtain ⟨s', rfl, hs'⟩ := account_plain (.inr ⟨calleeIdx, rfl⟩) h
    exact hplain s' hs'
  | block =>
    cases h
    exact hopen _ rfl
  | loop guard =>
    obtain ⟨s', rfl, hpar, -⟩ := account_loop h
    exact hopen s' hpar
  | blockEnd =>
    obtain ⟨-, rfl⟩ | ⟨parent, parents, s', hpar, rfl, hcur, hpar'⟩ := account_end h
    · exact Nat.succ_pos _
    have hout : s'.outerCount = s.outerCount := by
      rw [outerCount, outerCount, hcur, hpar, hpar', getLast?_cons]
      cases parents.getLast? <;> rfl
    show 0 < s'.outerCount
    rw [hout]
    exact hs.resolve_left (by rw [hpar]; exact cons_ne_nil _ _)

theorem instructionCount_scanLoop {endOffset : Int} {fuel : Nat} {s : ScanState} {i : Nat}
    {root : Block} {visited : List (Nat × Scanned)} (hs : s.parents = [] ∧ visited ≠ [] ∨ 0 < s.outerCount)
    (h : scanLoop wasm rules endOffset fuel s i = .ok (root, visited)) :
    0 < root.instructionCount := by
  induction fuel generalizing s i visited with
  | zero => cases h
  | succ fuel ih =>
    by_cases hi : (i : Int) < endOffset
    · obtain ⟨scanned, j, next, rest, fuel', ⟨⟩, -, hacc, -, hrest⟩ := scanLoop_next hi h
      have hnext := outerCount_account (hs.imp_left And.left) hacc
      rcases hrest with ⟨-, -, rfl⟩ | ⟨s', rfl, hrest⟩
      · exact hnext
      · exact ih (.inr hnext) hrest
    · rw [scanLoop, if_pos (by omega)] at h
      cases h
      rw [instructionCount_root]
      simpa using hs

/-- **A body counts iff it has an instruction**. -/
theorem worstCase_eq_zero_iff {startOffset : Nat} {endOffset : Int} {checked : CheckedBody}
    (h : checkGuard scale wasm startOffset endOffset rules = .ok checked) :
    checked.worstCase = 0 ↔ checked.visited = [] := by
  simp only [checkGuard, bind_eq_ok] at h
  obtain ⟨⟨root, visited⟩, hscan, h⟩ := h
  split at h
  · cases h
  next worstCase hwce =>
  split at h
  · cases h
  cases h
  obtain ⟨bound, count, start, children⟩ := root
  simp only [computeWce, Option.bind_eq_bind, Option.bind_eq_some_iff, Option.some.injEq] at hwce
  obtain ⟨below, hbelow, rfl⟩ := hwce
  constructor
  · intro hzero
    by_contra hne
    have hpos := instructionCount_scanLoop (.inl ⟨rfl, hne⟩) hscan
    change 0 < count at hpos
    dsimp only at hzero
    omega
  · rintro (rfl : visited = [])
    generalize (if endOffset ≤ 0 then (wasm.length : Int) else endOffset) = stop at hscan
    by_cases hi : (startOffset : Int) < stop
    · obtain ⟨_, _, _, _, _, -, -, -, hcons, -⟩ := scanLoop_next hi hscan
      cases hcons
    rw [scanLoop, if_pos (by omega)] at hscan
    cases hscan
    cases hbelow
    rfl

/-! ## Prices -/

/-- The last body that was scanned for the function with an index. -/
def bodyOf (bodies : List Body) (funcIdx : Int) : Option Body :=
  bodies.reverse.find? fun body => decide ((body.codesec : Int) = funcIdx)

/-- The worst case of the function with an index, zero if it has no body. -/
def priceOf (bodies : List Body) (funcIdx : Int) : Nat :=
  ((bodyOf bodies funcIdx).map fun body => body.checked.worstCase).getD 0

theorem priceOf_append (bodies : List Body) (body : Body) (funcIdx : Int) :
    priceOf (bodies ++ [body]) funcIdx =
      if (body.codesec : Int) = funcIdx then body.checked.worstCase else priceOf bodies funcIdx := by
  unfold priceOf bodyOf
  rw [reverse_append, reverse_singleton, singleton_append, find?_cons]
  split
  · next heq => rw [if_pos (of_decide_eq_true heq)]; rfl
  · next hne => rw [if_neg (of_decide_eq_false hne)]

variable {exported : Exported} {st : SecondPass}

/-- The counts of the bodies so far. -/
def SecondPass.Priced (st : SecondPass) (exported : Exported) : Prop :=
  st.maxInstrCountHook = priceOf st.bodies exported.hookFuncIdx ∧
    st.maxInstrCountCbak = match exported.cbakFuncIdx with
      | none => 0
      | some funcIdx => if funcIdx = exported.hookFuncIdx then 0 else priceOf st.bodies funcIdx

theorem SecondPass.Priced.record (h : st.Priced exported) (body : Body) :
    (st.record exported body).Priced exported := by
  obtain ⟨hookFuncIdx, cbakFuncIdx⟩ := exported
  obtain ⟨hhook, hcbak⟩ := h
  unfold SecondPass.Priced
  simp only [bodies_record, priceOf_append]
  unfold SecondPass.record
  by_cases hself : hookFuncIdx = body.codesec
  · subst hself
    simp only [if_true]
    refine ⟨trivial, ?_⟩
    cases cbakFuncIdx with
    | none => exact hcbak
    | some funcIdx =>
      by_cases hcall : funcIdx = body.codesec
      · simpa [hcall] using hcbak
      · simpa [hcall, Ne.symm hcall] using hcbak
  simp only [if_neg hself, if_neg (Ne.symm hself)]
  cases cbakFuncIdx with
  | none => exact ⟨hhook, hcbak⟩
  | some funcIdx =>
    by_cases hcall : funcIdx = body.codesec
    · simp [hcall, hhook, Ne.symm hself]
    · simpa [hcall, Ne.symm hcall, hhook] using hcbak

/-- **What an accepted module is priced at**: the worst cases of `hook` and `cbak`, iff they are
different functions or the function has no instructions. -/
theorem validateGuards_prices_iff (scale : Nat → Nat → Nat → Nat) (wasm : List UInt8)
    (rulesVersion : Nat) (report : Report)
    (h : validateGuards scale wasm rulesVersion = .ok report) :
    ∃ exported, exportedFuncs report.first = .ok exported ∧
      ((report.hookCount = priceOf report.bodies exported.hookFuncIdx ∧
          report.cbakCount = (exported.cbakFuncIdx.map (priceOf report.bodies)).getD 0) ↔
        (exported.cbakFuncIdx = some exported.hookFuncIdx →
          ∀ body ∈ bodyOf report.bodies exported.hookFuncIdx, body.checked.visited = [])) := by
  obtain ⟨-, hbodies⟩ := validateGuards_spec h
  simp only [validateGuards, bind_eq_ok, rejectIf_eq_ok] at h
  obtain ⟨-, -, -, -, -, -, first, -, exported, hexp, hookTypeIdx, -, second, hsecond, h⟩ := h
  cases h
  refine ⟨exported, hexp, ?_⟩
  obtain ⟨hhook, hcbak⟩ := secondPassLoop_induction (P := fun st => st.Priced exported)
    (fun st body hst _ => hst.record body) hsecond ⟨rfl, by split <;> simp [priceOf, bodyOf]⟩
  -- a function without instructions is priced at zero
  have hzero : priceOf second.bodies exported.hookFuncIdx = 0 ↔
      ∀ body ∈ bodyOf second.bodies exported.hookFuncIdx, body.checked.visited = [] := by
    unfold priceOf
    cases hbody : bodyOf second.bodies exported.hookFuncIdx with
    | none => simp
    | some body =>
      have hmem := hbodies body (mem_reverse.mp (mem_of_find?_eq_some hbody))
      simpa using worstCase_eq_zero_iff hmem
  rw [← hzero, hhook]
  refine (and_iff_right rfl).trans ?_
  rw [hcbak]
  cases exported.cbakFuncIdx with
  | none => simp
  | some funcIdx =>
    by_cases hself : funcIdx = exported.hookFuncIdx
    · simp [hself, eq_comm]
    · simp [hself]

/-- In the module with a guarded loop only `hook` is exported and priced. -/
theorem loopModule_prices :
    ∃ report, validateGuards exactScale (loopModule 0x0A) 3 = .ok report ∧
      report.hookCount = priceOf report.bodies 0 ∧ report.cbakCount = 0 := by
  obtain ⟨report, hreport, _, hexported, rfl⟩ : ∃ report,
      validateGuards exactScale (loopModule 0x0A) 3 = .ok report ∧
        ∃ exported, exportedFuncs report.first = .ok exported ∧ exported = ⟨0, none⟩ := by
    decide +kernel
  obtain ⟨exported, hexp, hiff⟩ := validateGuards_prices_iff exactScale (loopModule 0x0A) 3 report hreport
  cases hexp.symm.trans hexported
  exact ⟨report, hreport, hiff.mpr nofun⟩

/-- A module whose only function is exported as `hook` and as `cbak`. -/
def aliasModule : List UInt8 :=
  header ++
  [0x01, 0x0C, 0x02, 0x60, 0x02, 0x7F, 0x7F, 0x01, 0x7F, 0x60, 0x01, 0x7F, 0x01, 0x7E] ++
  [0x02, 0x0A, 0x01, 0x03, 0x65, 0x6E, 0x76, 0x02, 0x5F, 0x67, 0x00, 0x00] ++
  [0x03, 0x02, 0x01, 0x01] ++
  [0x07, 0x0F, 0x02, 0x04, 0x68, 0x6F, 0x6F, 0x6B, 0x00, 0x01,
    0x04, 0x63, 0x62, 0x61, 0x6B, 0x00, 0x01] ++
  [0x0A, 0x06, 0x01, 0x04, 0x00, 0x42, 0x00, 0x0B]

/-- **A callback for free**: two instructions are priced as `hook`, and none as `cbak`. -/
theorem aliasModule_free :
    ∃ report, validateGuards exactScale aliasModule 3 = .ok report ∧
      exportedFuncs report.first = .ok ⟨0, some 0⟩ ∧ priceOf report.bodies 0 = 2 ∧
      report.hookCount = 2 ∧ report.cbakCount = 0 := by
  obtain ⟨report, hreport, ⟨_, hexported, rfl⟩, hcounts⟩ : ∃ report,
      validateGuards exactScale aliasModule 3 = .ok report ∧
        (∃ exported, exportedFuncs report.first = .ok exported ∧ exported = ⟨0, some 0⟩) ∧
        priceOf report.bodies 0 = 2 ∧ report.hookCount = 2 ∧ report.cbakCount = 0 := by
    decide +kernel
  exact ⟨report, hreport, hexported, hcounts⟩

end Xahau.Guard
