import Mathlib

/-! # Runs of a transition relation

A run is a list of events, oldest first, that takes one state to another. Two rules carry the
proofs about runs: an invariant over the history, and the event that established what holds at the
end of a run. -/

variable {σ ε : Type*}

/-- `Run step s es t`: the events `es`, in this order, take `s` to `t`. -/
inductive Run (step : σ → ε → σ → Prop) (s : σ) : List ε → σ → Prop where
  /-- Nothing happened. -/
  | nil : Run step s [] s
  /-- One more event happened. -/
  | snoc {es : List ε} {e : ε} {t u : σ} : Run step s es t → step t e u → Run step s (es ++ [e]) u

namespace Run

variable {step : σ → ε → σ → Prop} {s t u : σ} {es es' : List ε} {e : ε}

theorem single (h : step s e t) : Run step s [e] t := nil.snoc h

theorem trans (h : Run step s es t) (h' : Run step t es' u) : Run step s (es ++ es') u := by
  induction h' with
  | nil => simpa using h
  | snoc _ hstep ih =>
    rw [← List.append_assoc]
    exact ih.snoc hstep

/-- **Invariants over the history**: kept by every step, they hold after every run. -/
theorem invariant (Inv : List ε → σ → Prop) (h0 : Inv [] s)
    (hstep : ∀ es t e u, Inv es t → step t e u → Inv (es ++ [e]) u) (h : Run step s es t) :
    Inv es t := by
  induction h with
  | nil => exact h0
  | snoc _ hlast ih => exact hstep _ _ _ _ ih hlast

theorem forall_mem {P : ε → Prop} (hP : ∀ t e u, step t e u → P e) (h : Run step s es t) :
    ∀ e ∈ es, P e := by
  apply h.invariant (fun es _ => ∀ e ∈ es, P e)
  · intro e he
    exact nomatch he
  intro es t e u hall hlast e' he'
  rcases List.mem_append.mp he' with he' | he'
  · exact hall e' he'
  · rw [List.mem_singleton.mp he']
    exact hP t e u hlast

/-- The steps that start and end where `Q` holds. -/
def Within (step : σ → ε → σ → Prop) (Q : σ → Prop) (t : σ) (e : ε) (u : σ) : Prop :=
  step t e u ∧ Q t ∧ Q u

/-- **The event that established `Q`**: some event of the run made it true, and it has held since.
-/
theorem exists_established (Q : σ → Prop) (h0 : ¬ Q s) (h : Run step s es u) (hu : Q u) :
    ∃ es₁ e es₂ t t', es = es₁ ++ e :: es₂ ∧ Run step s es₁ t ∧ ¬ Q t ∧ step t e t' ∧ Q t' ∧
      Run (Within step Q) t' es₂ u := by
  induction h with
  | nil => exact absurd hu h0
  | @snoc es e t u hrun hlast ih =>
    by_cases ht : Q t
    · obtain ⟨es₁, e₁, es₂, t₁, t₂, rfl, hrun₁, hnot, hstep, hQ, hwit⟩ := ih ht
      refine ⟨es₁, e₁, es₂ ++ [e], t₁, t₂, ?_, hrun₁, hnot, hstep, hQ, hwit.snoc ⟨hlast, ht, hu⟩⟩
      rw [List.append_assoc, List.cons_append]
    · exact ⟨es, e, [], t, u, rfl, hrun, ht, hlast, hu, nil⟩

end Run
