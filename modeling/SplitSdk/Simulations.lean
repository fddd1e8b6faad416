import Mathlib.Data.List.Basic

namespace SplitSdk.Simulations

variable {σ τ ε ο : Type}

section Runs

variable (step : σ → ε → σ × ο)

/-- What a machine answers to the calls of a run. -/
def answers : σ → List ε → List ο
  | _, [] => []
  | s, e :: es => (step s e).2 :: answers (step s e).1 es

def after : σ → List ε → σ
  | s, [] => s
  | s, e :: es => after (step s e).1 es

theorem after_append (s : σ) (es fs : List ε) : after step s (es ++ fs) = after step (after step s es) fs := by
  induction es generalizing s with
  | nil => rfl
  | cons e es ih => exact ih (step s e).1

end Runs

/-- A step from related states answers the same and ends in related states. -/
def Simulates (related : σ → τ → Prop) (step : σ → ε → σ × ο) (spec : τ → ε → τ × ο) : Prop :=
  ∀ s t e, related s t → (step s e).2 = (spec t e).2 ∧ related (step s e).1 (spec t e).1

variable {related : σ → τ → Prop} {step : σ → ε → σ × ο} {spec : τ → ε → τ × ο}

theorem answers_eq (h : Simulates related step spec) {s : σ} {t : τ} (hst : related s t) (es : List ε) :
    answers step s es = answers spec t es := by
  induction es generalizing s t with
  | nil => rfl
  | cons e es ih =>
      obtain ⟨hanswer, hnext⟩ := h s t e hst
      rw [answers, answers, hanswer, ih hnext]

theorem related_after (h : Simulates related step spec) {s : σ} {t : τ} (hst : related s t) (es : List ε) :
    related (after step s es) (after spec t es) := by
  induction es generalizing s t with
  | nil => exact hst
  | cons e es ih => exact ih (h s t e hst).2

end SplitSdk.Simulations
