/-
  Foundation/Agreement.lean --- how far two sequences agree.

  `agreement` is the length of the longest prefixes of two lists that match entry by
  entry.  It is fixed by two facts: everything below it matches, and at it the lists do
  not match any more.  A sequence that is written one entry at a time can be compared
  while it grows (`agreement_concat`).
-/
import Mathlib.Data.List.Basic

set_option autoImplicit false

namespace SimLoop.Foundation

variable {α β : Type} (r : α → β → Bool)

/-- The length of the longest matching prefixes. -/
def agreement : List α → List β → Nat
  | x :: xs, y :: ys => if r x y then agreement xs ys + 1 else 0
  | _, _ => 0

/-- The lists have entries at `k` that match. -/
def MatchAt (xs : List α) (ys : List β) (k : Nat) : Prop :=
  ∃ x y, xs[k]? = some x ∧ ys[k]? = some y ∧ r x y = true

variable {r} {xs : List α} {ys : List β} {k : Nat}

@[simp] theorem matchAt_cons_succ {x : α} {y : β} :
    MatchAt r (x :: xs) (y :: ys) (k + 1) ↔ MatchAt r xs ys k := by
  simp only [MatchAt, List.getElem?_cons_succ]

@[simp] theorem matchAt_cons_zero {x : α} {y : β} :
    MatchAt r (x :: xs) (y :: ys) 0 ↔ r x y = true := by
  simp [MatchAt]

theorem MatchAt.lt_left (h : MatchAt r xs ys k) : k < xs.length := by
  obtain ⟨x, y, hx, -, -⟩ := h
  exact (List.getElem?_eq_some_iff.mp hx).1

theorem MatchAt.lt_right (h : MatchAt r xs ys k) : k < ys.length := by
  obtain ⟨x, y, -, hy, -⟩ := h
  exact (List.getElem?_eq_some_iff.mp hy).1

theorem matchAt_of_lt_agreement (h : k < agreement r xs ys) : MatchAt r xs ys k := by
  induction xs generalizing ys k with
  | nil => simp [agreement] at h
  | cons x xs ih =>
      cases ys with
      | nil => simp [agreement] at h
      | cons y ys =>
          unfold agreement at h
          split at h
          · rename_i hr
            cases k with
            | zero => exact matchAt_cons_zero.mpr hr
            | succ k => exact matchAt_cons_succ.mpr (ih (Nat.lt_of_succ_lt_succ h))
          · exact absurd h (Nat.not_lt_zero k)

theorem not_matchAt_agreement : ¬ MatchAt r xs ys (agreement r xs ys) := by
  induction xs generalizing ys with
  | nil => exact fun h => absurd h.lt_left (Nat.not_lt_zero _)
  | cons x xs ih =>
      cases ys with
      | nil => exact fun h => absurd h.lt_right (Nat.not_lt_zero _)
      | cons y ys =>
          unfold agreement
          split
          · exact fun h => ih (matchAt_cons_succ.mp h)
          · rename_i hr
            exact fun h => hr (matchAt_cons_zero.mp h)

/-- The agreement is the one number below which everything matches and at which nothing does. -/
theorem agreement_eq_iff :
    agreement r xs ys = k ↔ (∀ j < k, MatchAt r xs ys j) ∧ ¬ MatchAt r xs ys k := by
  constructor
  · rintro rfl
    exact ⟨fun j => matchAt_of_lt_agreement, not_matchAt_agreement⟩
  · rintro ⟨hbelow, hat⟩
    rcases Nat.lt_trichotomy (agreement r xs ys) k with hlt | heq | hgt
    · exact absurd (hbelow _ hlt) not_matchAt_agreement
    · exact heq
    · exact absurd (matchAt_of_lt_agreement hgt) hat

theorem agreement_le_left : agreement r xs ys ≤ xs.length := by
  by_contra h
  exact absurd (matchAt_of_lt_agreement (Nat.not_le.mp h)).lt_left (Nat.lt_irrefl _)

/-! ## A sequence that grows -/

theorem matchAt_concat_of_lt {x : α} (h : k < xs.length) :
    MatchAt r (xs ++ [x]) ys k ↔ MatchAt r xs ys k := by
  simp only [MatchAt, List.getElem?_append_left h]

theorem matchAt_concat_self {x : α} :
    MatchAt r (xs ++ [x]) ys xs.length ↔ ∃ y, ys[xs.length]? = some y ∧ r x y = true := by
  simp [MatchAt]

/-- A disagreement is not made good by what comes later. -/
theorem agreement_concat_of_lt {x : α} (h : agreement r xs ys < xs.length) :
    agreement r (xs ++ [x]) ys = agreement r xs ys := by
  rw [agreement_eq_iff]
  refine ⟨fun j hj => ?_, ?_⟩
  · exact (matchAt_concat_of_lt (by omega)).mpr (matchAt_of_lt_agreement hj)
  · exact fun hat => not_matchAt_agreement ((matchAt_concat_of_lt h).mp hat)

/-- While everything so far matches, the next entry decides. -/
theorem agreement_concat_of_match {x : α} {y : β} (h : agreement r xs ys = xs.length)
    (hy : ys[xs.length]? = some y) (hr : r x y = true) :
    agreement r (xs ++ [x]) ys = xs.length + 1 := by
  rw [agreement_eq_iff]
  refine ⟨fun j hj => ?_, fun hat => ?_⟩
  · rcases Nat.lt_or_ge j xs.length with hlt | hge
    · exact (matchAt_concat_of_lt hlt).mpr (matchAt_of_lt_agreement (h ▸ hlt))
    · obtain rfl : j = xs.length := by omega
      exact matchAt_concat_self.mpr ⟨y, hy, hr⟩
  · have hlt := hat.lt_left
    rw [List.length_append, List.length_singleton] at hlt
    exact absurd hlt (Nat.lt_irrefl _)

theorem agreement_concat_of_not_match {x : α} (h : agreement r xs ys = xs.length)
    (hr : ∀ y, ys[xs.length]? = some y → r x y = false) :
    agreement r (xs ++ [x]) ys = xs.length := by
  rw [agreement_eq_iff]
  refine ⟨fun j hj => ?_, fun hat => ?_⟩
  · exact (matchAt_concat_of_lt hj).mpr (matchAt_of_lt_agreement (h ▸ hj))
  · obtain ⟨y, hy, hmatch⟩ := matchAt_concat_self.mp hat
    exact absurd (hr y hy) (by rw [hmatch]; decide)

end SimLoop.Foundation
