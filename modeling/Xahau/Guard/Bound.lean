import Xahau.Guard.Imports

/-! # The bound of a loop

The second constant of a loop guard is read twice: by `check_guard` as an unsigned number that is
truncated to 32 bits, and by the runtime as a signed number of 32 bits, which the guard function
takes as a `uint32_t`. -/

namespace Xahau.Guard

open Function Leb128

/-- The `maxitr` that the guard function `_g` receives from `i32.const n`. -/
def maxitrOf (n : Int) : Nat := (n % 0x100000000).toNat

/-- What the guard function answers. -/
inductive GuardAnswer : Type where
  /-- The loop may go on. -/
  | pass
  /-- The hook ends in a rollback with `GUARD_VIOLATION`. -/
  | violation
  deriving DecidableEq, Repr

section

variable (guardMap : Nat → Nat) (id maxitr : Nat)

/-- `_g`: count the calls with an identifier and stop at more than `maxitr`. The counts of
`guard_map` are `uint32_t`s. -/
def guardCall : (Nat → Nat) × GuardAnswer :=
  let count := (guardMap id + 1) % 0x100000000
  (Function.update guardMap id count, if maxitr < count then .violation else .pass)

/-- How many guard calls in a row pass, with the same identifier and bound. -/
def passingCalls (guardMap : Nat → Nat) (id maxitr : Nat) : (calls : Nat) → Nat
  | 0 => 0
  | calls + 1 =>
    match guardCall guardMap id maxitr with
    | (guardMap, .pass) => passingCalls guardMap id maxitr calls + 1
    | (_, .violation) => 0

theorem passingCalls_le {maxitr : Nat} (hmax : maxitr < 0xFFFFFFFF) (hcount : guardMap id ≤ maxitr)
    (calls : Nat) : passingCalls guardMap id maxitr calls ≤ maxitr - guardMap id := by
  induction calls generalizing guardMap with
  | zero => exact Nat.zero_le _
  | succ calls ih =>
    have hcar : (guardMap id + 1) % 0x100000000 = guardMap id + 1 := by omega
    simp only [passingCalls, guardCall, hcar]
    by_cases hvio : maxitr < guardMap id + 1
    · simp [hvio]
    have hself : update guardMap id (guardMap id + 1) id = guardMap id + 1 := update_self ..
    have hrest := ih (update guardMap id (guardMap id + 1)) (by omega)
    simp only [hvio, if_false]
    omega

/-- With the largest `uint32_t` as bound a loop always passes: the count wraps before. -/
theorem passingCalls_of_max (calls : Nat) : passingCalls guardMap id 0xFFFFFFFF calls = calls := by
  induction calls generalizing guardMap with
  | zero => rfl
  | succ calls ih =>
    have hpass : ¬ 0xFFFFFFFF < (guardMap id + 1) % 0x100000000 := by omega
    simp only [passingCalls, guardCall, hpass, if_false]
    rw [ih]

end

theorem maxitrOf_le_iff {bytes : List UInt8} {n : Int} {k u : Nat}
    (hn : signed 32 bytes = some (n, k)) (hraw : raw bytes = some (u, k)) :
    maxitrOf n ≤ u % 2 ^ 32 ↔ negative bytes = false ∨ k = 5 := by
  obtain ⟨u', hraw', hk, hval, hlow, hhigh⟩ := raw_of_signed (by decide) hn
  rw [hraw] at hraw'
  cases hraw'
  have hlt := raw_lt hraw
  have hpos := (raw_length hraw).1
  unfold maxitrOf
  cases hneg : negative bytes with
  | false =>
    rw [hneg] at hval
    simp only [Bool.false_eq_true, if_false, Int.sub_zero] at hval
    refine iff_of_true ?_ (.inl rfl)
    omega
  | true =>
    rw [hneg, if_pos rfl] at hval
    -- the weight above the sign bit is a multiple of `2 ^ 32` only for five bytes
    have hk' : k = 1 ∨ k = 2 ∨ k = 3 ∨ k = 4 ∨ k = 5 := by omega
    rcases hk' with rfl | rfl | rfl | rfl | rfl <;> norm_num at hval hlt ⊢ <;> omega

variable {guard : LoopGuard} {i : Nat}

theorem scanInstr_loop {wasm : List UInt8} {rules : GuardRules} {j : Nat}
    (h : scanInstr wasm rules i = .ok (.loop guard, j)) : ∃ k, guard.Spec wasm rules k j := by
  obtain ⟨guard', k, hloop, hguard⟩ | ⟨_, hcall, -⟩ | hpla | hpla | hpla := scanInstr_cases h
  · cases hloop
    exact ⟨k, hguard⟩
  · cases hcall
  · cases hpla
  · cases hpla
  · cases hpla

/-- **The bound of a loop.** The recorded bound is at least the `maxitr` that the guard function
receives iff the constant is not negative or takes five bytes. -/
theorem validateGuards_bound_iff (scale : Nat → Nat → Nat → Nat) (wasm : List UInt8)
    (rulesVersion : Nat) (report : Report)
    (h : validateGuards scale wasm rulesVersion = .ok report)
    (body : Body) (hbody : body ∈ report.bodies) (i : Nat) (guard : LoopGuard)
    (hloop : (i, .loop guard) ∈ body.checked.visited) (n : Int) (k : Nat)
    (hn : signed 32 (wasm.drop (guard.boundAt + 1)) = some (n, k)) :
    maxitrOf n ≤ guard.iterationBound ↔
      negative (wasm.drop (guard.boundAt + 1)) = false ∨ k = 5 := by
  obtain ⟨-, hbodies⟩ := validateGuards_spec h
  obtain ⟨j, hscan⟩ := scanInstr_of_mem_visited
    (scanLoop_of_checkGuard scale (hbodies body hbody)) _ hloop
  obtain ⟨start, hguard⟩ := scanInstr_loop hscan
  obtain ⟨bound, hparse, hbound⟩ := hguard.boundNumber
  obtain ⟨u, hraw, -⟩ := raw_of_signed (by decide) hn
  obtain ⟨-, hvalue⟩ := parseLeb128_eq hraw hparse
  have htruncate : guard.iterationBound = u % 2 ^ 32 := by
    rw [hbound, hvalue]
    omega
  rw [htruncate]
  exact maxitrOf_le_iff hn hraw

/-- The loop with the constant ten is priced for its ten iterations. -/
theorem loopModule_bound :
    ∃ report, validateGuards exactScale (loopModule 0x0A) 3 = .ok report ∧
      ∃ body ∈ report.bodies, ∃ i guard, (i, .loop guard) ∈ body.checked.visited ∧
        signed 32 ((loopModule 0x0A).drop (guard.boundAt + 1)) = some (10, 1) ∧
        maxitrOf 10 ≤ guard.iterationBound := by
  obtain ⟨report, hreport, body, hbody, hloop⟩ : ∃ report,
      validateGuards exactScale (loopModule 0x0A) 3 = .ok report ∧ ∃ body ∈ report.bodies,
        (53, .loop ⟨55, 57, 59, 10, 0⟩) ∈ body.checked.visited := by
    decide +kernel
  have hn : signed 32 ((loopModule 0x0A).drop 58) = some (10, 1) := by decide
  exact ⟨report, hreport, body, hbody, 53, _, hloop, hn,
    (validateGuards_bound_iff exactScale _ 3 report hreport body hbody 53 _ hloop 10 1 hn).mpr
      (.inl (by decide))⟩

/-- **A loop priced for 127 iterations and never stopped.** The byte `0x7F` is 127 to the checker
and minus one to the runtime, the largest `uint32_t`. -/
theorem loopModule_unbounded :
    ∃ report, validateGuards exactScale (loopModule 0x7F) 3 = .ok report ∧
      ∃ body ∈ report.bodies, ∃ i guard, (i, .loop guard) ∈ body.checked.visited ∧
        ∃ n k, signed 32 ((loopModule 0x7F).drop (guard.boundAt + 1)) = some (n, k) ∧
          ¬ maxitrOf n ≤ guard.iterationBound := by
  obtain ⟨report, hreport, body, hbody, hloop⟩ : ∃ report,
      validateGuards exactScale (loopModule 0x7F) 3 = .ok report ∧ ∃ body ∈ report.bodies,
        (53, .loop ⟨55, 57, 59, 127, 0⟩) ∈ body.checked.visited := by
    decide +kernel
  have hn : signed 32 ((loopModule 0x7F).drop 58) = some (-1, 1) := by decide
  exact ⟨report, hreport, body, hbody, 53, _, hloop, -1, 1, hn, by decide⟩

end Xahau.Guard
