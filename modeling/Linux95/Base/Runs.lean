import Mathlib.Tactic.Common

/-! Runs of a system under assumptions about its steps. -/

namespace Linux95.Base

variable {σ α : Type}

def run (exec : α → σ → σ) (s : σ) (steps : List α) : σ := steps.foldl (fun s a => exec a s) s

def Throughout (exec : α → σ → σ) (cond : σ → α → Prop) : σ → List α → Prop
  | _, [] => True
  | s, a :: steps => cond s a ∧ Throughout exec cond (exec a s) steps

instance Throughout.decide (exec : α → σ → σ) (cond : σ → α → Prop) [∀ s, DecidablePred (cond s)] :
    ∀ s steps, Decidable (Throughout exec cond s steps)
  | _, [] => isTrue trivial
  | s, a :: steps =>
    have := Throughout.decide exec cond (exec a s) steps
    inferInstanceAs (Decidable (cond s a ∧ Throughout exec cond (exec a s) steps))

variable {exec : α → σ → σ} {cond cond' : σ → α → Prop} {s : σ} {steps : List α}

theorem Throughout.and (h : Throughout exec cond s steps) (h' : Throughout exec cond' s steps) :
    Throughout exec (fun s a => cond s a ∧ cond' s a) s steps := by
  induction steps generalizing s with
  | nil => exact trivial
  | cons a steps ih => exact ⟨⟨h.1, h'.1⟩, ih h.2 h'.2⟩

theorem run_invariant {inv : σ → Prop} (hstep : ∀ s a, inv s → cond s a → inv (exec a s)) (hs : inv s)
    (h : Throughout exec cond s steps) : inv (run exec s steps) := by
  induction steps generalizing s with
  | nil => exact hs
  | cons a steps ih => exact ih (hstep s a hs h.1) h.2

end Linux95.Base
