import Xahau.Guard.Validate

/-! # Imports and calls of an accepted module

The guard function and the last import are known from the import section. Without it both numbers
keep the value `-1`, which a call index is compared with as a `uint64_t`, so that no call is
refused. -/

namespace Xahau.Guard

open List

open Checked (bind_eq_ok)

variable {st st' : FirstPass} {wasm : List UInt8} {i rulesVersion : Nat}

/-! ## The sections of a module -/

/-- The types of the sections from position `i` on, as their lengths delimit them. -/
def sectionTypesFrom (wasm : List UInt8) : (fuel : Nat) → (i : Int) → List Nat
  | 0, _ => []
  | fuel + 1, i =>
    if i < 0 ∨ (wasm.length : Int) ≤ i then []
    else
      match byteAt wasm i.toNat, sectionBounds wasm (i.toNat + 1) with
      | .ok sectionType, .ok (_, next) =>
        sectionType.toNat :: sectionTypesFrom wasm fuel next
      | _, _ => []

def sectionTypes (wasm : List UInt8) : List Nat := sectionTypesFrom wasm 257 8

/-! ## The first pass -/

/-- After an import section the guard is an import named `_g`, and the last import is the last of
the list. -/
structure FirstPass.GuardImported (st : FirstPass) : Prop where
  guard : ∃ (n : Nat) (func : ImportedFunc),
    st.guardImportNumber = n ∧ st.imports[n]? = some func ∧ func.name = "_g"
  last : st.lastImportNumber = st.imports.length - 1
  length_lt : st.imports.length < 0x80000000

/-- Two states of the first pass agree on the imports. -/
structure FirstPass.SameImports (st st' : FirstPass) : Prop where
  imports : st'.imports = st.imports
  guard : st'.guardImportNumber = st.guardImportNumber
  last : st'.lastImportNumber = st.lastImportNumber

theorem FirstPass.GuardImported.of_same (h : st.GuardImported)
    (hs : st.SameImports st') : st'.GuardImported := by
  obtain ⟨hguard, hlast, hlen⟩ := h
  obtain ⟨himp, hnum, hlas⟩ := hs
  refine ⟨?_, ?_, ?_⟩
  · rw [hnum, himp]
    exact hguard
  · rw [hlas, himp]
    exact hlast
  · rw [himp]
    exact hlen

theorem importLoop_spec {remaining : Nat}
    {imports imports' : List ImportedFunc} {guard guard' : Int}
    (h : importLoop wasm rulesVersion remaining i imports guard = .ok (imports', guard')) :
    imports'.length = imports.length + remaining ∧ imports <+: imports' ∧
      (guard' = guard ∨
        ∃ (n : Nat) (func : ImportedFunc), guard' = n ∧ imports'[n]? = some func ∧
          func.name = "_g") := by
  induction remaining generalizing i imports guard with
  | zero =>
    cases h
    exact ⟨rfl, prefix_refl _, .inl rfl⟩
  | succ remaining ih =>
    rw [importLoop, bind_eq_ok] at h
    obtain ⟨⟨func, i'⟩, -, h⟩ := h
    obtain ⟨hlen, hpre, hguard⟩ := ih h
    refine ⟨?_, (prefix_append imports [func]).trans hpre, ?_⟩
    · rw [hlen, length_append, length_singleton]
      omega
    rcases hguard with hguard | hguard
    · split at hguard
      next hname =>
        refine .inr ⟨imports.length, func, hguard, ?_, hname⟩
        obtain ⟨rest, rfl⟩ := hpre
        simp
      · exact .inl hguard
    · exact .inr hguard

theorem toInt_lt (n : Nat) : toInt n < 0x80000000 := by
  unfold toInt Int.bmod
  simp only []
  split <;> omega

theorem importSection_guardImported (hst : st.guardImportNumber = -1)
    (h : importSection wasm rulesVersion i st = .ok st') : st'.GuardImported := by
  simp only [importSection, bind_eq_ok, rejectIf_eq_ok] at h
  obtain ⟨⟨count, i⟩, -, -, -, ⟨imports, guard⟩, hloop, -, hguard, h⟩ := h
  cases h
  obtain ⟨hlen, -, hnum⟩ := importLoop_spec hloop
  refine ⟨hnum.resolve_left ?_, rfl, ?_⟩
  · rw [hst]
    exact hguard
  have hcount := toInt_lt count
  simp only [length_nil, Nat.zero_add] at hlen
  rw [hlen]
  omega

theorem exportSection_sameImports (h : exportSection wasm i st = .ok st') : st.SameImports st' := by
  simp only [exportSection, bind_eq_ok, rejectIf_eq_ok] at h
  obtain ⟨⟨count, i⟩, -, -, -, ⟨hook, cbak⟩, -, -, -, h⟩ := h
  cases h
  exact ⟨rfl, rfl, rfl⟩

theorem functionSection_sameImports
    (h : functionSection wasm i st = .ok st') : st.SameImports st' := by
  simp only [functionSection, bind_eq_ok, rejectIf_eq_ok] at h
  obtain ⟨⟨count, i⟩, -, -, -, funcTypes, -, h⟩ := h
  cases h
  exact ⟨rfl, rfl, rfl⟩

theorem firstPassSection_sameImports {sectionType : Nat} (htype : sectionType ≠ 2)
    (h : firstPassSection wasm rulesVersion sectionType i st = .ok st') : st.SameImports st' := by
  rw [firstPassSection, if_neg htype] at h
  split at h
  · exact exportSection_sameImports h
  split at h
  · exact functionSection_sameImports h
  · cases h
    exact ⟨rfl, rfl, rfl⟩

/-- The guard is imported if there is an import section, and nothing if there is none. -/
theorem firstPassLoop_imports {fuel : Nat} {i j : Int}
    {last : Nat} (hst : last < 2 → st.guardImportNumber = -1)
    (h : firstPassLoop wasm rulesVersion fuel i j last st = .ok st') :
    (2 ∈ sectionTypesFrom wasm fuel i ∧ st'.GuardImported) ∨
      (2 ∉ sectionTypesFrom wasm fuel i ∧ st.SameImports st') := by
  induction fuel generalizing i j last st with
  | zero => simp [firstPassLoop] at h
  | succ fuel ih =>
    rw [firstPassLoop] at h
    split at h
    next hend =>
      cases h
      refine .inr ⟨?_, rfl, rfl, rfl⟩
      rw [sectionTypesFrom, if_pos hend]
      exact not_mem_nil
    next hend =>
      split at h
      · cases h
      simp only [bind_eq_ok, rejectIf_eq_ok] at h
      obtain ⟨b, hbyte, -, -, -, hlast, ⟨start, next⟩, hbou, st₁, hsec, h⟩ := h
      have htyp : sectionTypesFrom wasm (fuel + 1) i
          = b.toNat :: sectionTypesFrom wasm fuel next := by
        rw [sectionTypesFrom, if_neg hend, hbyte, hbou]
      rw [htyp, mem_cons]
      by_cases htype : b.toNat = 2
      · rw [htype] at hsec h hlast
        have himp : st₁.GuardImported := by
          rw [firstPassSection, if_pos rfl] at hsec
          exact importSection_guardImported (hst (by omega)) hsec
        refine .inl ⟨.inl htype.symm, ?_⟩
        rcases ih (by omega) h with ⟨-, hguard⟩ | ⟨-, hs⟩
        · exact hguard
        · exact himp.of_same hs
      · have hs := firstPassSection_sameImports htype hsec
        have hst₁ : b.toNat < 2 → st₁.guardImportNumber = -1 := by
          intro hlt
          rw [hs.guard]
          exact hst (by omega)
        rcases ih hst₁ h with ⟨hmem, hguard⟩ | ⟨hmem, hs'⟩
        · exact .inl ⟨.inr hmem, hguard⟩
        refine .inr ⟨?_, ?_⟩
        · rintro (h2 | h2)
          · exact htype h2.symm
          · exact hmem h2
        · exact ⟨hs'.imports.trans hs.imports, hs'.guard.trans hs.guard,
            hs'.last.trans hs.last⟩

/-! ## The second pass -/

/-- The function that an instruction calls. -/
def Scanned.callee? : Scanned → Option Nat
  | .call calleeIdx => some calleeIdx
  | .loop guard => some guard.callFuncIdx
  | _ => none

theorem scanInstr_callee {rules : GuardRules} {j c : Nat}
    {scanned : Scanned} (h : scanInstr wasm rules i = .ok (scanned, j))
    (hc : scanned.callee? = some c) :
    c = toUInt64 rules.guardFuncIdx ∨ c ≤ toUInt64 rules.lastImportIdx := by
  rcases scanInstr_cases h with ⟨guard, k, rfl, hguard⟩ | ⟨calleeIdx, rfl, hle⟩ | rfl | rfl | rfl
  · cases hc
    exact .inl hguard.callFuncIdx
  · cases hc
    exact .inr hle
  · cases hc
  · cases hc
  · cases hc

theorem toUInt64_of_lt {n : Nat} (h : n < 0x80000000) : toUInt64 n = n := by
  unfold toUInt64
  omega

/-- **Calls of an accepted module.** It imports `_g` and calls imports only iff it has an import
section. -/
theorem validateGuards_calls_iff (scale : Nat → Nat → Nat → Nat) (wasm : List UInt8)
    (rulesVersion : Nat) (report : Report)
    (h : validateGuards scale wasm rulesVersion = .ok report) :
    ((∃ func ∈ report.first.imports, func.name = "_g") ∧
      ∀ body ∈ report.bodies, ∀ p ∈ body.checked.visited, ∀ c ∈ p.2.callee?,
        (c : Int) ≤ report.first.imports.length - 1) ↔
      2 ∈ sectionTypes wasm := by
  obtain ⟨hfirst, hbodies⟩ := validateGuards_spec h
  have himports := firstPassLoop_imports (fun _ => rfl) hfirst
  constructor
  · rintro ⟨⟨func, hmem, -⟩, -⟩
    rcases himports with ⟨h2, -⟩ | ⟨-, hsame⟩
    · exact h2
    · rw [hsame.imports] at hmem
      exact nomatch hmem
  · intro h2
    rcases himports with ⟨-, hguard⟩ | ⟨hno, -⟩
    · obtain ⟨⟨n, func, hnumber, hget, hname⟩, hlast, hlength⟩ := hguard
      have hn : n < report.first.imports.length := (List.getElem?_eq_some_iff.mp hget).1
      refine ⟨⟨func, mem_of_getElem? hget, hname⟩, fun body hbody p hp c hc => ?_⟩
      obtain ⟨j, hscan⟩ :=
        scanInstr_of_mem_visited (scanLoop_of_checkGuard scale (hbodies body hbody)) p hp
      rcases scanInstr_callee hscan hc with hcallee | hcallee
      · rw [hnumber, toUInt64_of_lt (by omega)] at hcallee
        omega
      rw [hlast] at hcallee
      have hsub : (report.first.imports.length : Int) - 1
          = ((report.first.imports.length - 1 : Nat) : Int) := by omega
      rw [hsub, toUInt64_of_lt (by omega)] at hcallee
      omega
    · exact absurd h2 hno

/-- A module that imports `_g` and whose `hook` is a loop guarded with the constant. -/
def loopModule (bound : UInt8) : List UInt8 :=
  header ++
  -- two types: that of `_g` and that of `hook`
  [0x01, 0x0C, 0x02, 0x60, 0x02, 0x7F, 0x7F, 0x01, 0x7F, 0x60, 0x01, 0x7F, 0x01, 0x7E] ++
  -- the import of `_g` from `env`
  [0x02, 0x0A, 0x01, 0x03, 0x65, 0x6E, 0x76, 0x02, 0x5F, 0x67, 0x00, 0x00] ++
  -- one function of the second type, exported as `hook`
  [0x03, 0x02, 0x01, 0x01] ++ [0x07, 0x08, 0x01, 0x04, 0x68, 0x6F, 0x6F, 0x6B, 0x00, 0x01] ++
  -- its code
  [0x0A, 0x10, 0x01, 0x0E, 0x00, 0x03, 0x40, 0x41, 0x01, 0x41, bound, 0x10, 0x00, 0x1A, 0x0B,
    0x42, 0x00, 0x0B]

/-- The module with a guarded loop only calls what it imports. -/
theorem loopModule_calls :
    ∃ report, validateGuards exactScale (loopModule 0x0A) 3 = .ok report ∧
      (∃ func ∈ report.first.imports, func.name = "_g") ∧
      ∀ body ∈ report.bodies, ∀ p ∈ body.checked.visited, ∀ c ∈ p.2.callee?,
        (c : Int) ≤ report.first.imports.length - 1 := by
  obtain ⟨report, hreport, -⟩ : ∃ report,
      validateGuards exactScale (loopModule 0x0A) 3 = .ok report ∧ report.hookCount = 23 := by
    decide +kernel
  have hsection : 2 ∈ sectionTypes (loopModule 0x0A) := by decide +kernel
  exact ⟨report, hreport,
    (validateGuards_calls_iff exactScale (loopModule 0x0A) 3 report hreport).mpr hsection⟩

/-- A module without an import section whose `hook` calls itself. -/
def selfCallingModule : List UInt8 :=
  header ++
  [0x01, 0x06, 0x01, 0x60, 0x01, 0x7F, 0x01, 0x7E] ++
  [0x03, 0x02, 0x01, 0x00] ++ [0x07, 0x08, 0x01, 0x04, 0x68, 0x6F, 0x6F, 0x6B, 0x00, 0x00] ++
  -- the body is padded with `nop`s to the smallest length of a module
  [0x0A, 0x22, 0x01, 0x20, 0x00] ++ List.replicate 26 0x01 ++ [0x20, 0x00, 0x10, 0x00, 0x0B]

/-- **A hook that calls itself is accepted** without an import section: it imports no `_g`, and
calls what is not imported. -/
theorem selfCallingModule_accepted :
    ∃ report, validateGuards exactScale selfCallingModule 3 = .ok report ∧
      (¬ ∃ func ∈ report.first.imports, func.name = "_g") ∧
      ∃ body ∈ report.bodies, ∃ p ∈ body.checked.visited, ∃ c ∈ p.2.callee?,
        ¬ (c : Int) ≤ report.first.imports.length - 1 := by
  decide +kernel

end Xahau.Guard
