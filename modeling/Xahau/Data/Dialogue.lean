import Mathlib

/-! # Dialogues

A dialogue is a program that asks questions and goes on by the answers. It is run by a machine that
answers: the answer depends on a state, which the machine may change. What every answer preserves
is preserved by every program. -/

namespace Xahau

universe u v w

/-- A program that asks questions `Q`, gets answers `R` and ends with a value `E`. -/
inductive Dialogue (Q : Type u) (R : Type v) (E : Type w) : Type (max u v w) where
  | done (value : E)
  | ask (question : Q) (next : R → Dialogue Q R E)

namespace Dialogue

variable {Q : Type u} {R : Type v} {E : Type w} {S : Type*} {answer answer' : S → Q → R × S}

/-- The answers, the value at the end, and the state that is left. -/
def run (answer : S → Q → R × S) : Dialogue Q R E → S → List R × E × S
  | done value, s => ([], value, s)
  | ask question next, s =>
    let (r, s) := answer s question
    let (rs, value, s) := run answer (next r) s
    (r :: rs, value, s)

/-- The questions that a program asks, each with the state in which it is asked. -/
def asked (answer : S → Q → R × S) : Dialogue Q R E → S → List (S × Q)
  | done _, _ => []
  | ask question next, s =>
    (s, question) :: asked answer (next (answer s question).1) (answer s question).2

@[simp] theorem run_done (value : E) (s : S) :
    run answer (done value : Dialogue Q R E) s = ([], value, s) := rfl

@[simp] theorem run_ask (question : Q) (next : R → Dialogue Q R E) (s : S) :
    run answer (ask question next) s
      = ((answer s question).1 :: (run answer (next (answer s question).1) (answer s question).2).1,
        (run answer (next (answer s question).1) (answer s question).2).2) := rfl

/-- **What every answer preserves, every program preserves.** -/
theorem run_invariant (I : S → Prop) (h : ∀ s question, I s → I (answer s question).2)
    (program : Dialogue Q R E) {s : S} (hs : I s) : I (run answer program s).2.2 := by
  induction program generalizing s with
  | done value => exact hs
  | ask question next ih => exact ih _ (h s question hs)

end Dialogue

end Xahau
