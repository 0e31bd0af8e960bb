/-
  Foundation/Machine.lean --- labelled machines, their runs and their invariants.

  A machine is a step relation between states, labelled by what was done.  A
  `Run` is a finite sequence of steps; `Run.invariant` is the one induction over
  runs that the later modules use, and `restrict` narrows a machine to the steps
  that meet a condition on the state they start from and the label they carry, so
  that a property of guarded runs is an ordinary invariant of a narrower machine.
  `Sometime` is the other side of it: a step that meets the condition is taken.

  The file names nothing of the simulator.
-/
import Mathlib.Data.List.Basic

set_option autoImplicit false

namespace SimLoop.Foundation

universe u v w

variable {σ : Type u} {α : Type v}

/-- Runs of a step relation: the states at the two ends and the labels between,
oldest first. -/
inductive Run (step : σ → α → σ → Prop) : σ → List α → σ → Prop
  | nil (s : σ) : Run step s [] s
  | snoc {s t u : σ} {as : List α} {a : α} :
      Run step s as t → step t a u → Run step s (as ++ [a]) u

/-- The steps of a machine whose starting state and label meet a condition. -/
def restrict (step : σ → α → σ → Prop) (G : σ → α → Prop) (s : σ) (a : α) (t : σ) : Prop :=
  step s a t ∧ G s a

/-- Somewhere in the run a step is taken whose starting state and label meet a condition. -/
inductive Sometime (step : σ → α → σ → Prop) (G : σ → α → Prop) : σ → List α → σ → Prop
  | intro {s u v t : σ} {before after : List α} {a : α} (left : Run step s before u)
      (hstep : step u a v) (hG : G u a) (right : Run step v after t) :
      Sometime step G s (before ++ a :: after) t

namespace Run

variable {step : σ → α → σ → Prop}

/-- A property that every step keeps holds at the end of every run it held at the
start of. -/
theorem invariant {I : σ → Prop} (hstep : ∀ s a t, I s → step s a t → I t)
    {s t : σ} {as : List α} (run : Run step s as t) (hs : I s) : I t := by
  induction run with
  | nil => exact hs
  | snoc _ h ih => exact hstep _ _ _ ih h

theorem append {s t u : σ} {as bs : List α} (left : Run step s as t)
    (right : Run step t bs u) : Run step s (as ++ bs) u := by
  induction right with
  | nil => simpa using left
  | snoc _ h ih =>
      rw [← List.append_assoc]
      exact .snoc ih h

/-- A run of the narrowed machine is a run of the machine. -/
theorem of_restrict {G : σ → α → Prop} {s t : σ} {as : List α}
    (run : Run (restrict step G) s as t) : Run step s as t := by
  induction run with
  | nil => exact .nil _
  | snoc _ h ih => exact .snoc ih h.1

/-- A run of a narrower machine is one of a wider machine. -/
theorem widen {G G' : σ → α → Prop} (hwider : ∀ s a, G s a → G' s a) {s t : σ} {as : List α}
    (run : Run (restrict step G) s as t) : Run (restrict step G') s as t := by
  induction run with
  | nil => exact .nil _
  | snoc _ h ih => exact .snoc ih ⟨h.1, hwider _ _ h.2⟩

/-- Either no step of a run meets the condition, or one does. -/
theorem restrict_or_sometime (G : σ → α → Prop) {s t : σ} {as : List α} (run : Run step s as t) :
    Run (restrict step fun u a => ¬ G u a) s as t ∨ Sometime step G s as t := by
  induction run with
  | nil => exact .inl (.nil _)
  | @snoc u v as a hrun hstep ih =>
      rcases ih with ih | ⟨left, hmid, hG, right⟩
      · by_cases hG : G u a
        · exact .inr (.intro hrun hstep hG (.nil v))
        · exact .inl (.snoc ih ⟨hstep, hG⟩)
      · rw [List.append_assoc]
        exact .inr (.intro left hmid hG (.snoc right hstep))

/-- Steps in a row of a machine that computes its next state. -/
theorem of_foldlM {next : σ → α → Option σ} {as : List α} {s t : σ}
    (h : as.foldlM next s = some t) : Run (fun s a t => next s a = some t) s as t := by
  induction as generalizing s with
  | nil =>
      obtain rfl := Option.some.inj h
      exact .nil s
  | cons a as ih =>
      obtain ⟨u, hu, hrest⟩ := Option.bind_eq_some_iff.mp h
      exact (Run.snoc (.nil s) hu).append (ih hrest)

end Run

end SimLoop.Foundation
