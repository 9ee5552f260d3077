import Xahau.Data.Wasm

/-! # Structured control of WebAssembly

An expression is a tree: blocks, loops and conditionals contain sequences of instructions
(`Wasm.Code`). `Wasm.Exec` executes a tree. It is exact about control and constants, and leaves open
what other instructions do to the operand stack; a run may stop anywhere, by a trap, a host
function, or because it is observed no longer. Every executed instruction counts, and so does an
`end` or `else` that is reached.

A guard is a host function that counts its calls by an identifier and stops the program when there
are more than its second argument allows. If every loop starts with a call of the guard,
`Wasm.Runs.count_le` pays for each start of a loop out of an allowance that the guard uses up. -/

namespace Wasm

open Function List

/-! ## Code -/

/-- Whether an instruction opens, divides or ends a block. -/
def Instr.isStructural (instr : Instr) : Bool :=
  instr.opcode ∈ [0x02, 0x03, 0x04, 0x05, 0x0B]

/-- A sequence of instructions up to the end of the block it is in. -/
inductive Code : Type where
  | done : Code
  | instr (instr : Instr) (plain : instr.isStructural = false) (rest : Code) : Code
  | block (type : List Int) (body rest : Code) : Code
  | loop (type : List Int) (body rest : Code) : Code
  | cond (type : List Int) (yes rest : Code) : Code
  | condElse (type : List Int) (yes no rest : Code) : Code

/-- `end`. -/
def endInstr : Instr := ⟨0x0B, none, []⟩

/-- `else`. -/
def elseInstr : Instr := ⟨0x05, none, []⟩

namespace Code

/-- The instructions in the order of the binary format. -/
def flatten : Code → List Instr
  | done => []
  | instr i _ rest => i :: rest.flatten
  | block type body rest => ⟨0x02, none, type⟩ :: (body.flatten ++ endInstr :: rest.flatten)
  | loop type body rest => ⟨0x03, none, type⟩ :: (body.flatten ++ endInstr :: rest.flatten)
  | cond type yes rest => ⟨0x04, none, type⟩ :: (yes.flatten ++ endInstr :: rest.flatten)
  | condElse type yes no rest =>
    ⟨0x04, none, type⟩ ::
      (yes.flatten ++ elseInstr :: (no.flatten ++ endInstr :: rest.flatten))

/-- The number of instructions outside of loops; of a loop only its opcode. -/
def own : Code → Nat
  | done => 0
  | instr _ _ rest => 1 + rest.own
  | block _ body rest => 2 + body.own + rest.own
  | loop _ _ rest => 1 + rest.own
  | cond _ yes rest => 2 + yes.own + rest.own
  | condElse _ yes no rest => 3 + yes.own + no.own + rest.own

end Code

/-! ## Every expression is code -/

/-- Instructions that end the open blocks, from the innermost on. In a conditional there may be an
alternative first. -/
def Closes : List Frame → List Instr → Prop
  | [], instrs => instrs = [endInstr]
  | .cond :: outer, instrs =>
    ∃ (code : Code) (rest : List Instr), Closes outer rest ∧
      (instrs = endInstr :: (code.flatten ++ rest) ∨
        ∃ no : Code, instrs = elseInstr :: (no.flatten ++ endInstr :: (code.flatten ++ rest)))
  | _ :: outer, instrs =>
    ∃ (code : Code) (rest : List Instr), Closes outer rest ∧
      instrs = endInstr :: (code.flatten ++ rest)

theorem Closes.of_end {frame : Frame} {outer : List Frame} {code : Code} {rest : List Instr}
    (h : Closes outer rest) : Closes (frame :: outer) (endInstr :: (code.flatten ++ rest)) := by
  cases frame with
  | cond => exact ⟨code, rest, h, .inl rfl⟩
  | _ => exact ⟨code, rest, h, rfl⟩

section

variable {fuel pos : Nat} {frames : List Frame} {l : List UInt8} {instrs : List (Nat × Instr)}

/-- An instruction without prefix has no second opcode; without immediates, no operands. -/
theorem eq_of_decodeInstr {instr : Instr} {k : Nat} (h : decodeInstr l = some (instr, k))
    (hop : instr.isStructural = true) :
    instr.sub = none ∧ (instr.opcode = 0x05 ∨ instr.opcode = 0x0B → instr.operands = []) := by
  cases l with
  | nil => simp [decodeInstr] at h
  | cons b l =>
    have hpre : ∀ table, ∀ opcode ∈ [0xFC, 0xFD],
        decodePrefixed table opcode l ≠ some (instr, k) := by
      intro table opcode hmem hd
      obtain ⟨sub, a, fs, vs, c, -, -, -, rfl, -⟩ := decodePrefixed_eq_some hd
      simp only [mem_cons, not_mem_nil, or_false] at hmem
      rcases hmem with rfl | rfl <;> simp [Instr.isStructural] at hop
    by_cases hFC : b = 0xFC
    · rw [decodeInstr, if_pos hFC] at h
      exact absurd h (hpre _ _ (by simp))
    by_cases hFD : b = 0xFD
    · rw [decodeInstr, if_neg hFC, if_pos hFD] at h
      exact absurd h (hpre _ _ (by simp))
    obtain ⟨fs, vs, a, hfs, hflds, rfl, -⟩ := decodeInstr_eq_some hFC hFD h
    refine ⟨rfl, fun hend => ?_⟩
    have hn : fields b.toNat = some [] := by
      rcases hend with hend | hend <;> rw [show b.toNat = _ from hend] <;> rfl
    rw [hn] at hfs
    cases hfs
    cases hflds
    rfl

/-- The rest of an expression is code, and then what closes the open blocks. -/
theorem exists_code_of_decodeFrom (h : decodeFrom fuel pos frames l = some instrs) :
    ∃ (code : Code) (rest : List Instr),
      instrs.map Prod.snd = code.flatten ++ rest ∧ Closes frames rest := by
  induction fuel generalizing pos frames l instrs with
  | zero => simp [decodeFrom] at h
  | succ fuel ih =>
    simp only [decodeFrom, Option.bind_eq_bind, Option.bind_eq_some_iff] at h
    obtain ⟨⟨instr, k⟩, hins, h⟩ := h
    by_cases hend : instr.opcode = 0x0B
    · have hsha := eq_of_decodeInstr hins (by simp [Instr.isStructural, hend])
      obtain rfl : instr = endInstr := by
        obtain ⟨opcode, sub, operands⟩ := instr
        obtain rfl : opcode = 0x0B := hend
        obtain rfl : sub = none := hsha.1
        obtain rfl : operands = [] := hsha.2 (.inr rfl)
        rfl
      rw [if_pos hend] at h
      cases frames with
      | nil =>
        simp only [] at h
        split at h
        · cases h
          exact ⟨.done, [endInstr], rfl, rfl⟩
        · cases h
      | cons frame outer =>
        simp only [Option.bind_eq_some_iff] at h
        obtain ⟨tail, htail, h⟩ := h
        cases h
        obtain ⟨code, rest, heq, hclo⟩ := ih htail
        refine ⟨.done, endInstr :: (code.flatten ++ rest), ?_, hclo.of_end⟩
        rw [map_cons, heq]
        rfl
    · rw [if_neg hend] at h
      simp only [Option.bind_eq_some_iff] at h
      obtain ⟨inner, hnest, tail, htail, h⟩ := h
      cases h
      obtain ⟨code, rest, heq, hclo⟩ := ih htail
      rw [map_cons, heq]
      by_cases hpla : instr.isStructural = false
      · -- the open blocks stay
        have hs : inner = frames := by
          simp only [Instr.isStructural, mem_cons, not_mem_nil, or_false,
            decide_eq_false_iff_not, not_or] at hpla
          unfold nest at hnest
          rw [if_neg hpla.1, if_neg hpla.2.1, if_neg hpla.2.2.1, if_neg hpla.2.2.2.1] at hnest
          exact (Option.some.inj hnest).symm
        rw [hs] at hclo
        exact ⟨.instr instr hpla code, rest, rfl, hclo⟩
      · have hstr : instr.isStructural = true := by simpa using hpla
        have hsha := eq_of_decodeInstr hins hstr
        obtain ⟨opcode, sub, operands⟩ := instr
        obtain rfl : sub = none := hsha.1
        simp only [Instr.isStructural, mem_cons, not_mem_nil, or_false,
          decide_eq_true_eq] at hstr
        rcases hstr with rfl | rfl | rfl | rfl | rfl
        · obtain rfl : Frame.block :: frames = inner := Option.some.inj hnest
          obtain ⟨after, rest, hclo, rfl⟩ := hclo
          exact ⟨.block operands code after, rest, by simp [Code.flatten], hclo⟩
        · obtain rfl : Frame.loop :: frames = inner := Option.some.inj hnest
          obtain ⟨after, rest, hclo, rfl⟩ := hclo
          exact ⟨.loop operands code after, rest, by simp [Code.flatten], hclo⟩
        · obtain rfl : Frame.cond :: frames = inner := Option.some.inj hnest
          obtain ⟨after, rest, hclo, rfl | ⟨no, rfl⟩⟩ := hclo
          · exact ⟨.cond operands code after, rest, by simp [Code.flatten], hclo⟩
          · exact ⟨.condElse operands code no after, rest, by simp [Code.flatten], hclo⟩
        · -- an `else` stands in a conditional, whose alternative follows
          obtain rfl : operands = [] := hsha.2 (.inl rfl)
          cases frames with
          | nil => cases hnest
          | cons frame outer =>
            cases frame with
            | cond =>
              obtain rfl : Frame.alternative :: outer = inner := Option.some.inj hnest
              obtain ⟨after, rest, hclo, rfl⟩ := hclo
              exact ⟨.done, _, rfl, after, rest, hclo, .inr ⟨code, rfl⟩⟩
            | block | loop | alternative => cases hnest
        · exact absurd rfl hend

/-- **Every expression is code and an `end`.** -/
theorem exists_code (h : decodeExpr pos l = some instrs) :
    ∃ code : Code, instrs.map Prod.snd = code.flatten ++ [endInstr] := by
  obtain ⟨code, rest, heq, rfl⟩ := exists_code_of_decodeFrom h
  exact ⟨code, heq⟩

end

/-! ## Execution -/

/-- What execution is about: the guard calls by identifier, and the operand stack of 32-bit words.
-/
structure Machine where
  guards : Nat → Nat
  stack : List Nat

/-- The word of an `i32.const`. -/
def word (n : Int) : Nat := (n % 0x100000000).toNat

/-- How execution of a sequence ends. -/
inductive Outcome : Type where
  /-- At its end. -/
  | next
  /-- With a branch to a label, counted from the innermost block. -/
  | branch (label : Nat)
  /-- With a `return`. -/
  | returned
  /-- The program has stopped. -/
  | stopped
  deriving DecidableEq, Repr

/-- How a block ends if its body does not end and does not branch to the block. -/
def Outcome.leave : Outcome → Option Outcome
  | .next => none
  | .branch 0 => none
  | .branch (label + 1) => some (.branch label)
  | .returned => some .returned
  | .stopped => some .stopped

section

/- Whether a function index is that of the guard. -/
variable (isGuard : Int → Bool)

def Instr.callsGuard (instr : Instr) : Bool :=
  instr.opcode == 0x10 && instr.operands.any isGuard

/-- An instruction that opens and ends no block. -/
inductive Step : Instr → Machine → Machine → Outcome → Prop where
  | unreachable {i m} (hop : i.opcode = 0x00) : Step i m m .stopped
  | br {i m} {label : Int} (hop : i.opcode = 0x0C) (hlabel : label ∈ i.operands) (stack) :
      Step i m ⟨m.guards, stack⟩ (.branch label.toNat)
  | brIf {i m} {label : Int} (hop : i.opcode = 0x0D) (hlabel : label ∈ i.operands) (stack) :
      Step i m ⟨m.guards, stack⟩ (.branch label.toNat)
  | brIfNot {i m} (hop : i.opcode = 0x0D) (stack) : Step i m ⟨m.guards, stack⟩ .next
  | brTable {i m} {label : Int} (hop : i.opcode = 0x0E) (hlabel : label ∈ i.operands) (stack) :
      Step i m ⟨m.guards, stack⟩ (.branch label.toNat)
  | ret {i m} (hop : i.opcode = 0x0F) : Step i m m .returned
  | const {i m} {n : Int} (hop : i.opcode = 0x41) (hn : i.operands = [n]) :
      Step i m ⟨m.guards, word n :: m.stack⟩ .next
  | pass {i guards id maxiter stack} (hcall : i.callsGuard isGuard = true)
      (hle : guards id + 1 ≤ maxiter) :
      Step i ⟨guards, maxiter :: id :: stack⟩
        ⟨Function.update guards id (guards id + 1), 1 :: stack⟩ .next
  | violate {i guards id maxiter stack} (hcall : i.callsGuard isGuard = true)
      (hlt : maxiter < guards id + 1) :
      Step i ⟨guards, maxiter :: id :: stack⟩
        ⟨Function.update guards id (guards id + 1), stack⟩ .stopped
  | other {i m} (hop : i.opcode ∉ [0x00, 0x0C, 0x0D, 0x0E, 0x0F, 0x41])
      (hcall : i.callsGuard isGuard = false) (stack) : Step i m ⟨m.guards, stack⟩ .next

/-- What a block or a conditional may execute, the number of `else` and `end` reached after it, and
the rest. -/
inductive Enters : Code → (body : Code) → (ends : Nat) → (rest : Code) → Prop where
  | block {type body rest} : Enters (.block type body rest) body 1 rest
  | yes {type yes rest} : Enters (.cond type yes rest) yes 1 rest
  | skip {type yes rest} : Enters (.cond type yes rest) .done 1 rest
  | yesElse {type yes no rest} : Enters (.condElse type yes no rest) yes 2 rest
  | no {type yes no rest} : Enters (.condElse type yes no rest) no 1 rest

/-- From `m` the code executes `n` instructions and ends in `m'` with `o`. -/
inductive Exec : Code → Machine → Nat → Machine → Outcome → Prop where
  /-- The program stops. -/
  | stop {code m} : Exec code m 0 m .stopped
  | done {m} : Exec .done m 0 m .next
  | next {i plain rest m m' m'' n o} (hstep : Step isGuard i m m' .next)
      (hrest : Exec rest m' n m'' o) : Exec (.instr i plain rest) m (1 + n) m'' o
  | jump {i plain rest m m' o} (hstep : Step isGuard i m m' o) (hjump : o ≠ .next) :
      Exec (.instr i plain rest) m 1 m' o
  /-- The end of a block. -/
  | fall {code body ends rest m m' m'' n n' o} (henter : Enters code body ends rest)
      (hbody : Exec body m n m' .next) (stack)
      (hrest : Exec rest ⟨m'.guards, stack⟩ n' m'' o) : Exec code m (1 + n + ends + n') m'' o
  /-- A branch to the end of a block. -/
  | exit {code body ends rest m m' m'' n n' o} (henter : Enters code body ends rest)
      (hbody : Exec body m n m' (.branch 0)) (stack)
      (hrest : Exec rest ⟨m'.guards, stack⟩ n' m'' o) : Exec code m (1 + n + n') m'' o
  | leave {code body ends rest m m' n o o'} (henter : Enters code body ends rest)
      (hbody : Exec body m n m' o) (hleave : o.leave = some o') : Exec code m (1 + n) m' o'
  /-- The end of a loop. -/
  | loopEnd {type body rest m m' m'' n n' o} (hbody : Exec body m n m' .next) (stack)
      (hrest : Exec rest ⟨m'.guards, stack⟩ n' m'' o) :
      Exec (.loop type body rest) m (1 + n + 1 + n') m'' o
  /-- A branch to a loop executes it again. -/
  | again {type body rest m m' m'' n n' o} (hbody : Exec body m n m' (.branch 0)) (stack)
      (hloop : Exec (.loop type body rest) ⟨m'.guards, stack⟩ n' m'' o) :
      Exec (.loop type body rest) m (1 + n + n') m'' o
  | loopLeave {type body rest m m' n o o'} (hbody : Exec body m n m' o)
      (hleave : o.leave = some o') : Exec (.loop type body rest) m (1 + n) m' o'

/-- A run of a function body: the code, and the last `end` if it is reached. -/
inductive Runs (code : Code) (m : Machine) : Nat → Prop where
  | ended {n m'} (h : Exec isGuard code m n m' .next) : Runs code m (n + 1)
  | left {n m' o} (h : Exec isGuard code m n m' o) (ho : o ≠ .next) : Runs code m n

end

/-! ## Allowances -/

/-- A loop: the identifier of its guard, how often it may be started, and how many instructions
follow the guard. -/
structure Allowance where
  id : Nat
  bound : Nat
  work : Nat
  deriving DecidableEq, Repr

/-- What a start costs: the opcode, the three instructions of the guard, and the work. -/
def Allowance.cost (loop : Allowance) : Nat := 4 + loop.work

/-- What the loops may still cost, given the calls of the guard so far. -/
def allowed (loops : List Allowance) (guards : Nat → Nat) : Nat :=
  (loops.map fun loop => loop.cost * (loop.bound - guards loop.id)).sum

@[simp] theorem allowed_cons (loop : Allowance) (loops : List Allowance) (guards : Nat → Nat) :
    allowed (loop :: loops) guards
      = loop.cost * (loop.bound - guards loop.id) + allowed loops guards := rfl

theorem allowed_anti (loops : List Allowance) {guards guards' : Nat → Nat}
    (h : ∀ id, guards id ≤ guards' id) : allowed loops guards' ≤ allowed loops guards := by
  induction loops with
  | nil => exact Nat.le_refl _
  | cons loop loops ih =>
    have hid := h loop.id
    exact Nat.add_le_add (Nat.mul_le_mul_left _ (by omega)) ih

theorem le_update_succ (guards : Nat → Nat) (id id' : Nat) :
    guards id' ≤ update guards id (guards id + 1) id' := by
  by_cases h : id' = id
  · subst h
    rw [update_self]
    exact Nat.le_succ _
  · rw [update_of_ne h]

theorem allowed_start {loops : List Allowance} {loop : Allowance} (hmem : loop ∈ loops)
    {guards : Nat → Nat} (hle : guards loop.id + 1 ≤ loop.bound) :
    allowed loops (update guards loop.id (guards loop.id + 1)) + loop.cost
      ≤ allowed loops guards := by
  induction loops with
  | nil => cases hmem
  | cons first loops ih =>
    rw [allowed_cons, allowed_cons]
    rcases mem_cons.mp hmem with rfl | hmem
    · have hrest := allowed_anti loops (le_update_succ guards loop.id)
      have hself : loop.cost * (loop.bound - (guards loop.id + 1)) + loop.cost
          = loop.cost * (loop.bound - guards loop.id) := by
        rw [← Nat.mul_succ]
        congr 1
        omega
      rw [update_self]
      omega
    · have hfirst : first.cost *
          (first.bound - update guards loop.id (guards loop.id + 1) first.id)
            ≤ first.cost * (first.bound - guards first.id) :=
        Nat.mul_le_mul_left _ (Nat.sub_le_sub_left (le_update_succ guards loop.id first.id) _)
      have hrest := ih hmem
      omega

/-! ## Loops that start with a guard -/

section

variable (isGuard : Int → Bool)

/-- `i32.const id`, `i32.const maxiter` and a call of the guard, and then `code`. -/
inductive Guarded (id maxiter : Int) (code : Code) : Code → Prop where
  | head {first second call : Instr} {h₁ h₂ h₃} (hfirst : first.opcode = 0x41)
      (hid : first.operands = [id]) (hsecond : second.opcode = 0x41)
      (hmaxiter : second.operands = [maxiter]) (hcall : call.callsGuard isGuard = true) :
      Guarded id maxiter code (.instr first h₁ (.instr second h₂ (.instr call h₃ code)))

/-- Every loop starts with a guard that allows no more than one of the allowances. -/
inductive Covered (loops : List Allowance) : Code → Prop where
  | done : Covered loops .done
  | instr {i plain rest} (hrest : Covered loops rest) : Covered loops (.instr i plain rest)
  | block {type body rest} (hbody : Covered loops body) (hrest : Covered loops rest) :
      Covered loops (.block type body rest)
  | loop {type body rest id maxiter code bound} (hguard : Guarded isGuard id maxiter code body)
      (hbound : word maxiter ≤ bound) (hmem : ⟨word id, bound, code.own + 1⟩ ∈ loops)
      (hcode : Covered loops code) (hrest : Covered loops rest) :
      Covered loops (.loop type body rest)
  | cond {type yes rest} (hyes : Covered loops yes) (hrest : Covered loops rest) :
      Covered loops (.cond type yes rest)
  | condElse {type yes no rest} (hyes : Covered loops yes) (hno : Covered loops no)
      (hrest : Covered loops rest) : Covered loops (.condElse type yes no rest)

end

variable {isGuard : Int → Bool} {loops : List Allowance} {code body rest : Code} {i : Instr}
  {plain : i.isStructural = false} {m m' : Machine} {n cost bound : Nat} {o : Outcome} {id maxiter : Int}

theorem Covered.mono {loops' : List Allowance} (hsub : ∀ loop ∈ loops, loop ∈ loops')
    (h : Covered isGuard loops code) : Covered isGuard loops' code := by
  induction h with
  | done => exact .done
  | instr _ ih => exact .instr ih
  | block _ _ ihbody ihrest => exact .block ihbody ihrest
  | loop hguard hbound hmem _ _ ihcode ihrest =>
    exact .loop hguard hbound (hsub _ hmem) ihcode ihrest
  | cond _ _ ihyes ihrest => exact .cond ihyes ihrest
  | condElse _ _ _ ihyes ihno ihrest => exact .condElse ihyes ihno ihrest

theorem Enters.own_le {ends : Nat} (h : Enters code body ends rest) :
    1 + body.own + ends + rest.own ≤ code.own := by
  cases h <;> simp only [Code.own] <;> omega

/-! ## Counting -/

theorem Step.guards_le (h : Step isGuard i m m' o) (id : Nat) : m.guards id ≤ m'.guards id := by
  cases h with
  | pass | violate => exact le_update_succ _ _ _
  | _ => exact Nat.le_refl _

theorem Step.of_const {n : Int} (hop : i.opcode = 0x41) (hn : i.operands = [n])
    (h : Step isGuard i m m' o) : m' = ⟨m.guards, word n :: m.stack⟩ ∧ o = .next := by
  have hno : i.callsGuard isGuard = false := by simp [Instr.callsGuard, hop]
  cases h with
  | const hop' hn' =>
    rw [hn] at hn'
    cases hn'
    exact ⟨rfl, rfl⟩
  | pass hcall | violate hcall => simp [hno] at hcall
  | other hop' | _ hop' => simp [hop] at hop'

theorem Step.of_guard (hcall : i.callsGuard isGuard = true) {guards : Nat → Nat}
    {id maxiter : Nat} {stack : List Nat}
    (h : Step isGuard i ⟨guards, maxiter :: id :: stack⟩ m' o) :
    m'.guards = update guards id (guards id + 1) ∧
      (o = .next ∧ guards id + 1 ≤ maxiter ∨ o = .stopped) := by
  have hop : i.opcode = 0x10 := by
    simp only [Instr.callsGuard, Bool.and_eq_true, beq_iff_eq] at hcall
    exact hcall.1
  cases h with
  | pass _ hle => exact ⟨rfl, .inl ⟨rfl, hle⟩⟩
  | violate => exact ⟨rfl, .inr rfl⟩
  | other _ hno => simp [hcall] at hno
  | _ hop' => simp [hop] at hop'

theorem Exec.instr_cases (h : Exec isGuard (.instr i plain rest) m n m' o) :
    (n = 0 ∧ m' = m ∧ o = .stopped) ∨
      (∃ m₁ n₁, n = 1 + n₁ ∧ Step isGuard i m m₁ .next ∧ Exec isGuard rest m₁ n₁ m' o) ∨
      (n = 1 ∧ Step isGuard i m m' o ∧ o ≠ .next) := by
  cases h with
  | stop => exact .inl ⟨rfl, rfl, rfl⟩
  | next hstep hrest => exact .inr (.inl ⟨_, _, rfl, hstep, hrest⟩)
  | jump hstep hjump => exact .inr (.inr ⟨rfl, hstep, hjump⟩)
  | fall henter | exit henter | leave henter => cases henter

/-- What a program that stops may have spent on a loop before its guard. -/
def stopCost (cost : Nat) (o : Outcome) : Nat := if o = .stopped then cost else 0

theorem stopCost_of_leave {o' : Outcome} (h : o.leave = some o') :
    stopCost cost o = stopCost cost o' := by
  cases o with
  | next => cases h
  | returned | stopped =>
    cases h
    rfl
  | branch label =>
    cases label with
    | zero => cases h
    | succ label =>
      cases h
      rfl

section

variable (isGuard loops) (cost : Nat)

/-- No execution costs more than the code and what it uses of the allowances. -/
def Affordable (code : Code) : Prop :=
  ∀ ⦃m n m' o⦄, Exec isGuard code m n m' o →
    n + allowed loops m'.guards ≤ code.own + allowed loops m.guards + stopCost cost o

end

theorem Affordable.done : Affordable isGuard loops cost .done := by
  intro m n m' o h
  cases h with
  | stop | done => omega
  | fall henter | exit henter | leave henter => cases henter

theorem Affordable.instr (hrest : Affordable isGuard loops cost rest) :
    Affordable isGuard loops cost (.instr i plain rest) := by
  intro m n m' o h
  rw [Code.own]
  obtain ⟨rfl, rfl, rfl⟩ | ⟨m₁, n₁, rfl, hstep, hexec⟩ | ⟨rfl, hstep, -⟩ := h.instr_cases
  · omega
  · have hanti := allowed_anti loops hstep.guards_le
    have haft := hrest hexec
    omega
  · have hanti := allowed_anti loops hstep.guards_le
    omega

theorem Affordable.enters (hsha : ∃ body ends rest, Enters code body ends rest)
    (hpar : ∀ {body ends rest}, Enters code body ends rest →
      Affordable isGuard loops cost body ∧ Affordable isGuard loops cost rest ∧
        1 + body.own + ends + rest.own ≤ code.own) : Affordable isGuard loops cost code := by
  intro m n m' o h
  obtain ⟨_, _, _, hcode⟩ := hsha
  cases h with
  | stop => omega
  | done | next | jump | loopEnd | again | loopLeave => cases hcode
  | fall henter hbody stack hrest | exit henter hbody stack hrest =>
    obtain ⟨haff, haffo, hown⟩ := hpar henter
    have h₁ := haff hbody
    have h₂ := haffo hrest
    simp only [stopCost, reduceCtorEq, if_false] at h₁
    dsimp only at h₂
    omega
  | leave henter hbody hleave =>
    obtain ⟨haff, -, hown⟩ := hpar henter
    have h₁ := haff hbody
    rw [stopCost_of_leave hleave] at h₁
    omega

section

variable (hguard : Guarded isGuard id maxiter code body) (hbound : word maxiter ≤ bound)
  (hmem : ⟨word id, bound, code.own + 1⟩ ∈ loops) (hcost : 4 ≤ cost)
  (hcode : Affordable isGuard loops cost code)

include hguard hbound hmem hcost hcode

/-- **A start of a loop** costs what the guard uses of its allowance, unless the program stops
before. -/
theorem Exec.start_le (h : Exec isGuard body m n m' o) :
    1 + n + (if o = .next then 1 else 0) + allowed loops m'.guards
      ≤ allowed loops m.guards + stopCost cost o := by
  cases hguard with
  | head hfirst hid hsecond hmaxiter hcall =>
    obtain ⟨rfl, rfl, rfl⟩ | ⟨m₁, n₁, rfl, hstep, hexec⟩ | ⟨-, hstep, hjump⟩ := h.instr_cases
    · simp [stopCost]
      omega
    · obtain ⟨rfl, -⟩ := hstep.of_const hfirst hid
      obtain ⟨rfl, rfl, rfl⟩ | ⟨m₂, n₂, rfl, hstep, hexec⟩ | ⟨-, hstep, hjump⟩ := hexec.instr_cases
      · simp [stopCost]
        omega
      · obtain ⟨rfl, -⟩ := hstep.of_const hsecond hmaxiter
        obtain ⟨rfl, rfl, rfl⟩ | ⟨m₃, n₃, rfl, hstep, hexec⟩ | ⟨rfl, hstep, hjump⟩ :=
          hexec.instr_cases
        · simp [stopCost]
          omega
        · -- the guard has passed, so that the allowance pays for the rest
          obtain ⟨hgua, ⟨-, hle⟩ | hstop⟩ := hstep.of_guard hcall
          · have haft := hcode hexec
            have hpaid := allowed_start hmem (hle.trans hbound)
            rw [hgua] at haft
            simp only [Allowance.cost] at hpaid
            dsimp only at haft
            split <;> omega
          · cases hstop
        · obtain ⟨hgua, ⟨rfl, -⟩ | rfl⟩ := hstep.of_guard hcall
          · exact absurd rfl hjump
          · have hanti := allowed_anti loops hstep.guards_le
            simp only [stopCost, reduceCtorEq, if_false, if_true]
            dsimp only at hanti
            omega
      · exact absurd (hstep.of_const hsecond hmaxiter).2 hjump
    · exact absurd (hstep.of_const hfirst hid).2 hjump

theorem Affordable.loop {type : List Int} (hrest : Affordable isGuard loops cost rest) :
    Affordable isGuard loops cost (.loop type body rest) := by
  intro m n m' o h
  -- by induction on the starts of this loop
  generalize hloop : Code.loop type body rest = whole at h
  induction h with
  | stop => omega
  | done | next | jump => cases hloop
  | fall henter | exit henter | leave henter =>
    subst hloop
    cases henter
  | loopEnd hbody stack haft =>
    cases hloop
    have h₁ := hbody.start_le hguard hbound hmem hcost hcode
    have h₂ := hrest haft
    simp only [stopCost, reduceCtorEq, if_false, if_true] at h₁
    simp only [Code.own]
    dsimp only at h₂
    omega
  | again hbody stack haga _ ih =>
    cases hloop
    have h₁ := hbody.start_le hguard hbound hmem hcost hcode
    have h₂ := ih rfl
    simp only [stopCost, reduceCtorEq, if_false] at h₁
    dsimp only at h₂
    omega
  | loopLeave hbody hleave =>
    cases hloop
    have h₁ := hbody.start_le hguard hbound hmem hcost hcode
    rw [stopCost_of_leave hleave] at h₁
    omega

end

/-- **Covered code is affordable**: by induction over its blocks. -/
theorem Covered.affordable (hcost : ∀ loop ∈ loops, 4 ≤ cost)
    (h : Covered isGuard loops code) : Affordable isGuard loops cost code := by
  induction h with
  | done => exact .done
  | instr _ ih => exact ih.instr
  | block hbody hrest ihbody ihrest =>
    refine .enters ⟨_, _, _, .block⟩ fun henter => ?_
    have hown := henter.own_le
    cases henter
    exact ⟨ihbody, ihrest, hown⟩
  | loop hguard hbound hmem _ _ ihcode ihrest =>
    exact .loop hguard hbound hmem (hcost _ hmem) ihcode ihrest
  | cond hyes hrest ihyes ihrest =>
    refine .enters ⟨_, _, _, .yes⟩ fun henter => ?_
    have hown := henter.own_le
    cases henter with
    | yes => exact ⟨ihyes, ihrest, hown⟩
    | skip => exact ⟨.done, ihrest, hown⟩
  | condElse hyes hno hrest ihyes ihno ihrest =>
    refine .enters ⟨_, _, _, .yesElse⟩ fun henter => ?_
    have hown := henter.own_le
    cases henter with
    | yesElse => exact ⟨ihyes, ihrest, hown⟩
    | no => exact ⟨ihno, ihrest, hown⟩

/-! ## The allowances of code -/

namespace Code

/-- The loops that start with two constants and another instruction. -/
def allowances : Code → List Allowance
  | done => []
  | instr _ _ rest => rest.allowances
  | block _ body rest => body.allowances ++ rest.allowances
  | loop _ (instr first _ (instr second _ (instr _ _ code))) rest =>
    ⟨word (first.operands.headD 0), word (second.operands.headD 0), code.own + 1⟩ ::
      (code.allowances ++ rest.allowances)
  | loop _ _ rest => rest.allowances
  | cond _ yes rest => yes.allowances ++ rest.allowances
  | condElse _ yes no rest => yes.allowances ++ (no.allowances ++ rest.allowances)

/-- How often the loops of the code may be started, all together. -/
def starts (code : Code) : Nat := (code.allowances.map Allowance.bound).sum

/-- Whether the bounds of all loops are written as numbers that are not negative. -/
def boundsNonneg : Code → Bool
  | done => true
  | instr _ _ rest => rest.boundsNonneg
  | block _ body rest => body.boundsNonneg && rest.boundsNonneg
  | loop _ (instr _ _ (instr second _ (instr _ _ code))) rest =>
    decide (0 ≤ second.operands.headD 0) && code.boundsNonneg && rest.boundsNonneg
  | loop _ _ rest => rest.boundsNonneg
  | cond _ yes rest => yes.boundsNonneg && rest.boundsNonneg
  | condElse _ yes no rest => yes.boundsNonneg && no.boundsNonneg && rest.boundsNonneg

/-- Whether there is no loop in the code. -/
def loopFree : Code → Bool
  | done => true
  | instr _ _ rest => rest.loopFree
  | block _ body rest => body.loopFree && rest.loopFree
  | loop _ _ _ => false
  | cond _ yes rest => yes.loopFree && rest.loopFree
  | condElse _ yes no rest => yes.loopFree && no.loopFree && rest.loopFree

theorem allowances_of_loopFree (h : code.loopFree = true) :
    code.allowances = [] ∧ code.boundsNonneg = true := by
  induction code with
  | done => exact ⟨rfl, rfl⟩
  | instr i plain rest ih => exact ih h
  | block type body rest ihbody ihrest =>
    simp only [loopFree, Bool.and_eq_true] at h
    simp [allowances, boundsNonneg, ihbody h.1, ihrest h.2]
  | loop type body rest => cases h
  | cond type yes rest ihyes ihrest =>
    simp only [loopFree, Bool.and_eq_true] at h
    simp [allowances, boundsNonneg, ihyes h.1, ihrest h.2]
  | condElse type yes no rest ihyes ihno ihrest =>
    simp only [loopFree, Bool.and_eq_true] at h
    simp [allowances, boundsNonneg, ihyes h.1.1, ihno h.1.2, ihrest h.2]

theorem eq_instr_of_flatten {xs ys : List Instr} (hpla : i.isStructural = false) (h : code.flatten ++ endInstr :: xs = i :: ys) :
    ∃ rest, code = .instr i hpla rest ∧ rest.flatten ++ endInstr :: xs = ys := by
  cases code with
  | instr i' plain rest =>
    obtain ⟨rfl, htail⟩ := List.cons.inj h
    exact ⟨rest, rfl, htail⟩
  | _ =>
    obtain ⟨rfl, -⟩ := List.cons.inj h
    simp [Instr.isStructural, endInstr] at hpla

end Code

/-- What the loops of the code do without their guards, all together. -/
def Code.work (code : Code) : Nat :=
  (code.allowances.map fun loop => loop.bound * loop.work).sum

section

variable {type : List Int} {yes no : Code}

theorem Code.work_instr : (Code.instr i plain rest).work = rest.work := rfl

theorem Code.work_append (h : code.allowances = body.allowances ++ rest.allowances) :
    code.work = body.work + rest.work := by
  simp [work, h]

theorem Code.work_condElse :
    (Code.condElse type yes no rest).work = yes.work + (no.work + rest.work) := by
  simp [work, allowances]

theorem Code.work_loop {first second call : Instr} {h₁ h₂ h₃} :
    (Code.loop type (.instr first h₁ (.instr second h₂ (.instr call h₃ code))) rest).work
      = word (second.operands.headD 0) * (code.own + 1) + (code.work + rest.work) := by
  simp [work, allowances]

end

theorem allowed_zero (code : Code) :
    allowed code.allowances (fun _ => 0) = code.work + 4 * code.starts := by
  rw [Code.work, Code.starts]
  induction code.allowances with
  | nil => rfl
  | cons loop loops ih =>
    rw [allowed_cons, ih, map_cons, map_cons, sum_cons, sum_cons,
      Allowance.cost, Nat.sub_zero]
    ring

/-- **No run executes more than its loops may be started.** -/
theorem Runs.count_le (hcov : Covered isGuard code.allowances code)
    (hcost : ∀ loop ∈ code.allowances, 4 ≤ cost) {stack : List Nat}
    (h : Runs isGuard code ⟨fun _ => 0, stack⟩ n) :
    n ≤ code.own + 1 + code.work + 4 * code.starts + cost := by
  have hzero := allowed_zero code
  cases h with
  | ended h =>
    have hcount := hcov.affordable hcost h
    simp only [stopCost, reduceCtorEq, if_false] at hcount
    omega
  | left h =>
    have hcount := hcov.affordable hcost h
    rw [stopCost] at hcount
    dsimp only at hcount
    split at hcount <;> omega

end Wasm
