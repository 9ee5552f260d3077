import Mathlib

/-! # Checked computations

Code that tests its input and returns early is a computation in `Except`. A successful run is taken
apart by `bind_eq_ok` and `of_failIf`, a failure put together by the rules of `FailsWith`. -/

namespace Checked

universe u

variable {ε : Type*} {α β : Type u} {condition : Prop} [Decidable condition] {e : ε} {a : α} {b : β}
  {x : Except ε α} {f : α → Except ε β}

/-- Fail if the condition holds. -/
def failIf (condition : Prop) [Decidable condition] (e : ε) : Except ε PUnit :=
  if condition then .error e else .ok ⟨⟩

theorem bind_eq_ok : x >>= f = .ok b ↔ ∃ a, x = .ok a ∧ f a = .ok b := by
  cases x with
  | error e => simp [bind, Except.bind]
  | ok a => simp [bind, Except.bind]

/-- What follows a check succeeds. -/
theorem of_check {y : Except ε β} (h : (x >>= fun _ => y) = .ok b) : y = .ok b :=
  (bind_eq_ok.mp h).choose_spec.2

theorem failIf_eq_ok {u : PUnit} : failIf condition e = .ok u ↔ ¬ condition := by
  unfold failIf
  split <;> simp [*]

/-- The condition that a check tests does not hold, and what follows succeeds. -/
theorem of_failIf {f : PUnit → Except ε β} (h : (failIf condition e >>= f) = .ok b) :
    ¬ condition ∧ f ⟨⟩ = .ok b := by
  obtain ⟨_, hcon, h⟩ := bind_eq_ok.mp h
  exact ⟨failIf_eq_ok.mp hcon, h⟩

theorem ok_bind : (.ok a >>= f : Except ε β) = f a := rfl

theorem failIf_of_not (h : ¬ condition) :
    failIf condition e = .ok ⟨⟩ := if_neg h

/-- A computation gives a result. -/
def Succeeds (x : Except ε α) : Prop := ∃ a, x = .ok a

theorem succeeds_ok : Succeeds (.ok a : Except ε α) := ⟨a, rfl⟩

theorem succeeds_bind : Succeeds (x >>= f) ↔ ∃ a, x = .ok a ∧ Succeeds (f a) := by
  constructor
  · rintro ⟨b, h⟩
    obtain ⟨a, hx, hf⟩ := bind_eq_ok.mp h
    exact ⟨a, hx, b, hf⟩
  · rintro ⟨a, hx, b, hf⟩
    exact ⟨b, bind_eq_ok.mpr ⟨a, hx, hf⟩⟩

theorem succeeds_failIf_bind {f : PUnit → Except ε β} :
    Succeeds (failIf condition e >>= f) ↔ ¬ condition ∧ Succeeds (f ⟨⟩) := by
  rw [succeeds_bind]
  constructor
  · rintro ⟨_, hx, hf⟩
    exact ⟨failIf_eq_ok.mp hx, hf⟩
  · rintro ⟨hcon, hf⟩
    exact ⟨⟨⟩, failIf_of_not hcon, hf⟩

/-- Every failure of a computation is of a kind. -/
def FailsWith (P : ε → Prop) (x : Except ε α) : Prop := ∀ e, x = .error e → P e

namespace FailsWith

variable {P : ε → Prop}

theorem ok : FailsWith P (.ok a : Except ε α) := fun _ h => nomatch h

theorem error (h : P e) : FailsWith P (.error e : Except ε α) := by
  rintro _ ⟨⟩
  exact h

theorem failIf (h : P e) : FailsWith P (failIf condition e) := by
  unfold Checked.failIf
  split
  · exact error h
  · exact ok

theorem bind (hx : FailsWith P x) (hf : ∀ a, x = .ok a → FailsWith P (f a)) :
    FailsWith P (x >>= f) := by
  cases x with
  | error e => exact error (hx e rfl)
  | ok a => exact hf a rfl

end FailsWith

/-- The error of a computation; none if it gives a result. -/
def code (x : Except ε α) : Option ε :=
  match x with
  | .ok _ => none
  | .error e => some e

/-- **Two computations in step** have the same error if their parts do. -/
theorem code_bind_eq {α' β' : Type u} {y : Except ε α'} {g : α' → Except ε β'} (h : code x = code y)
    (hfg : ∀ a b, x = .ok a → y = .ok b → code (f a) = code (g b)) :
    code (x >>= f) = code (y >>= g) := by
  cases x with
  | error e =>
    cases y with
    | error e' => exact h
    | ok b => exact nomatch h
  | ok a =>
    cases y with
    | error e' => exact nomatch h
    | ok b => exact hfg a b rfl rfl

/-- Whether a computation gives a result of a kind is seen by running it. -/
instance decidableExistsOk {P : α → Prop} [DecidablePred P] :
    Decidable (∃ a, x = .ok a ∧ P a) :=
  match x with
  | .ok a => decidable_of_iff (P a) (by simp)
  | .error _ => isFalse (by simp)

/-- Whether a computation fails in a way is seen by running it. -/
instance decidableExistsError {P : ε → Prop} [DecidablePred P] :
    Decidable (∃ e, x = .error e ∧ P e) :=
  match x with
  | .error e => decidable_of_iff (P e) (by simp)
  | .ok _ => isFalse (by simp)

/-- Whether an option holds a value of a kind is seen by looking at it. -/
instance decidableExistsSome {o : Option α} {P : α → Prop} [DecidablePred P] :
    Decidable (∃ a, o = some a ∧ P a) :=
  match o with
  | some a => decidable_of_iff (P a) (by simp)
  | none => isFalse (by simp)

end Checked
