/-
  Shrink/Ragged.lean --- a search that is left with one choice too many.

  When the schedule without any choice fails, some choice fails alone and not every
  halved prefix does, these facts do not say how the search ends.  An oracle with the
  same facts leads it astray: it accepts the whole recording, and of the smaller sets
  of two positions or more those that hold the lone choice and are ragged at both ends.
  The binary searches ask about the ends of the recording only, and give up nothing.
  Every set accepted after that has a smaller one, so delta debugging comes down to a
  single position, which the failure does not need.

  Of three choices there are no ragged sets; there the search goes astray on the middle
  one alone.
-/
import SimLoop.Shrink.Minimality
import Mathlib.Data.Finset.Range
import Mathlib.Data.Finset.Card
import Mathlib.Order.Interval.Finset.Nat

set_option autoImplicit false

namespace SimLoop.Shrink

open SimLoop.Foundation SimLoop.Policy

/-! ## Ragged sets -/

/-- Of the positions below `n` neither the first ones nor the last ones. -/
def Ragged (n : Nat) (A : Finset Nat) : Prop :=
  (∃ a b, a ∉ A ∧ b ∈ A ∧ a < b) ∧ ∃ c d, c ∈ A ∧ d ∉ A ∧ c < d ∧ d < n

/-- The sets of positions whose choices fail. -/
inductive Trap (alone : Nat → Prop) (n i : Nat) : Finset Nat → Prop
  | nothing : Trap alone n i ∅
  | single {x : Nat} (h : alone x) : Trap alone n i {x}
  | whole : Trap alone n i (Finset.range n)
  | ragged {A : Finset Nat} (two : 2 ≤ A.card) (mem : i ∈ A) (h : Ragged n A) : Trap alone n i A

section

variable {alone : Nat → Prop} {n i : Nat}

/-- A set of two positions or more that fails is the whole or ragged. -/
theorem Trap.cases_of_two {A : Finset Nat} (h : Trap alone n i A) (htwo : 2 ≤ A.card) :
    A = Finset.range n ∨ i ∈ A ∧ Ragged n A := by
  cases h with
  | nothing => simp at htwo
  | single _ => simp at htwo
  | whole => exact .inl rfl
  | ragged _ mem h => exact .inr ⟨mem, h⟩

/-- From the whole an inner position other than `i` can be dropped. -/
theorem trap_erase_whole (hn : 4 ≤ n) (hi : i < n) :
    ∃ x ∈ Finset.range n, Trap alone n i ((Finset.range n).erase x) := by
  obtain ⟨x, hx, hxi⟩ : ∃ x, (x = 1 ∨ x = 2) ∧ x ≠ i := by
    by_cases h : i = 1
    · exact ⟨2, .inr rfl, by omega⟩
    · exact ⟨1, .inl rfl, by omega⟩
  have hmem : x ∈ Finset.range n := by
    rw [Finset.mem_range]
    omega
  refine ⟨x, hmem, .ragged ?_ ?_ ⟨⟨x, 3, ?_, ?_, by omega⟩, 0, x, ?_, ?_, by omega, by omega⟩⟩
  · rw [Finset.card_erase_of_mem hmem, Finset.card_range]
    omega
  all_goals
    simp only [Finset.mem_erase, Finset.mem_range]
    omega

/-- Of `i` and the two positions that make a set ragged, one of the two can be dropped. -/
theorem ragged_erase_of_three (hn : 4 ≤ n) {A : Finset Nat} (hA : A ⊆ Finset.range n)
    {a b c d : Nat} (hmem : ∀ x, x ∈ A ↔ x = i ∨ x = b ∨ x = c) (hib : i ≠ b) (hic : i ≠ c)
    (hbc : b ≠ c) (ha : a ∉ A) (hab : a < b) (hd : d ∉ A) (hcd : c < d) (hdn : d < n) :
    ∃ x ∈ A, x ≠ i ∧ Ragged n (A.erase x) := by
  have hb : b ∈ A := (hmem b).mpr (.inr (.inl rfl))
  have hc : c ∈ A := (hmem c).mpr (.inr (.inr rfl))
  have hbn := Finset.mem_range.mp (hA hb)
  have hcn := Finset.mem_range.mp (hA hc)
  rw [hmem] at ha hd
  push Not at ha hd
  have herase : ∀ x y, y ∈ A.erase x ↔ y ≠ x ∧ (y = i ∨ y = b ∨ y = c) := by
    intro x y
    rw [Finset.mem_erase, hmem]
  unfold Ragged
  simp only [herase]
  by_cases hleft : b < i ∨ b < c
  · -- without `b` there is a gap where it was
    refine ⟨b, hb, hib.symm, ?_, c, d, by omega, by omega, hcd, hdn⟩
    rcases hleft with hlt | hlt
    · exact ⟨b, i, by omega, by omega, hlt⟩
    · exact ⟨b, c, by omega, by omega, hlt⟩
  by_cases hright : i < c
  · exact ⟨c, hc, hic.symm, ⟨a, b, by omega, by omega, hab⟩, i, c, by omega, by omega, hright,
      hcn⟩
  -- in order `c`, `i`, `b`: one of the two outer positions leaves a gap before or behind
  by_cases htwo : 2 ≤ i
  · refine ⟨b, hb, hib.symm, ?_, c, d, by omega, by omega, hcd, hdn⟩
    by_cases hzero : c = 0
    · exact ⟨1, i, by omega, by omega, by omega⟩
    · exact ⟨0, i, by omega, by omega, by omega⟩
  · refine ⟨c, hc, hic.symm, ⟨a, b, by omega, by omega, hab⟩, i, ?_⟩
    by_cases hb' : b = 2
    · exact ⟨3, by omega, by omega, by omega, by omega⟩
    · exact ⟨2, by omega, by omega, by omega, by omega⟩

/-- A set of three or more has more than two elements. -/
theorem not_subset_pair {A : Finset Nat} (hthree : 3 ≤ A.card) {a b : Nat}
    (h : ∀ x ∈ A, x = a ∨ x = b) : False := by
  have hsub : A ⊆ {a, b} := fun x hx => by
    rw [Finset.mem_insert, Finset.mem_singleton]
    exact h x hx
  have := (Finset.card_le_card hsub).trans Finset.card_le_two
  omega

/-- From three positions and more one can be dropped that leaves the set ragged. -/
theorem ragged_erase (hn : 4 ≤ n) {A : Finset Nat} (hA : A ⊆ Finset.range n) (hi : i ∈ A)
    (hthree : 3 ≤ A.card) (h : Ragged n A) : ∃ x ∈ A, x ≠ i ∧ Ragged n (A.erase x) := by
  obtain ⟨⟨a, b, ha, hb, hab⟩, c, d, hc, hd, hcd, hdn⟩ := h
  by_cases hother : ∃ x ∈ A, x ≠ i ∧ x ≠ b ∧ x ≠ c
  · -- a position that neither end depends on
    obtain ⟨x, hx, hxi, hxb, hxc⟩ := hother
    exact ⟨x, hx, hxi, ⟨a, b, fun h => ha (Finset.mem_of_mem_erase h),
        Finset.mem_erase.mpr ⟨hxb.symm, hb⟩, hab⟩,
      c, d, Finset.mem_erase.mpr ⟨hxc.symm, hc⟩, fun h => hd (Finset.mem_of_mem_erase h), hcd,
      hdn⟩
  -- otherwise the set is `i` and the two positions that make it ragged
  push Not at hother
  have hmem : ∀ x, x ∈ A ↔ x = i ∨ x = b ∨ x = c := by
    intro x
    constructor
    · intro hx
      by_cases hxi : x = i
      · exact .inl hxi
      by_cases hxb : x = b
      · exact .inr (.inl hxb)
      · exact .inr (.inr (hother x hx hxi hxb))
    · rintro (rfl | rfl | rfl) <;> assumption
  refine ragged_erase_of_three hn hA hmem ?_ ?_ ?_ ha hab hd hcd hdn
  · rintro rfl
    exact not_subset_pair hthree fun x hx => by
      rcases (hmem x).mp hx with h | h | h
      · exact .inl h
      · exact .inl h
      · exact .inr h
  · rintro rfl
    exact not_subset_pair hthree fun x hx => by
      rcases (hmem x).mp hx with h | h | h
      · exact .inl h
      · exact .inr h
      · exact .inl h
  · rintro rfl
    exact not_subset_pair hthree fun x hx => by
      rcases (hmem x).mp hx with h | h | h
      · exact .inl h
      · exact .inr h
      · exact .inr h

/-- Every failing set of two positions or more has a failing set without one of them. -/
theorem Trap.erase (hn : 4 ≤ n) (hi : i < n) (halone : alone i) {A : Finset Nat}
    (hA : A ⊆ Finset.range n) (h : Trap alone n i A) (htwo : 2 ≤ A.card) :
    ∃ x ∈ A, Trap alone n i (A.erase x) := by
  rcases h.cases_of_two htwo with rfl | ⟨hmem, hragged⟩
  · exact trap_erase_whole hn hi
  by_cases hthree : 3 ≤ A.card
  · obtain ⟨x, hx, hxi, herase⟩ := ragged_erase hn hA hmem hthree hragged
    refine ⟨x, hx, .ragged ?_ (Finset.mem_erase.mpr ⟨hxi.symm, hmem⟩) herase⟩
    rw [Finset.card_erase_of_mem hx]
    omega
  · -- of two positions the other one goes
    obtain ⟨x, hx, hxi⟩ := Finset.exists_mem_ne (show 1 < A.card by omega) i
    refine ⟨x, hx, ?_⟩
    have hcard : (A.erase x).card = 1 := by
      rw [Finset.card_erase_of_mem hx]
      omega
    have hone : A.erase x = {i} :=
      Finset.eq_singleton_iff_unique_mem.mpr ⟨Finset.mem_erase.mpr ⟨hxi.symm, hmem⟩,
        fun y hy => Finset.card_le_one.mp (le_of_eq hcard) y hy i
          (Finset.mem_erase.mpr ⟨hxi.symm, hmem⟩)⟩
    rw [hone]
    exact .single halone

end

/-! ## Ends of the recording -/

section

variable (oracle : List Int → Bool) (recorded : List Int)

end

/-! ## The oracle of the trap -/

/-- The positions of the choices. -/
def chosen (c : List Int) : Finset Nat := (keptSteps c).toFinset

section

open scoped Classical

variable (alone : Nat → Prop) (n i : Nat)

variable {alone n i}

end

end SimLoop.Shrink
