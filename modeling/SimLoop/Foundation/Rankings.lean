/-
  Foundation/Rankings.lean --- counting the rankings that keep the order inside classes.

  A ranking of `n` items is a permutation of `Fin n`.  When the items fall into
  classes, the rankings that order every class as a given one does are a large
  share of all: `n !` is at most their number times the orders of the classes
  (`factorial_le_agreeing`), and joining items along `m` merges makes the orders of
  the classes at most `(m + 1) !` (`prod_factorial_classes_le`).
-/
import Mathlib.Data.Finset.Sort
import Mathlib.Data.Fin.Tuple.Sort
import Mathlib.GroupTheory.Perm.DomMulAct

set_option autoImplicit false

namespace SimLoop.Foundation

open Finset Nat Equiv

variable {n : ℕ} {ι : Type*}

/-! ## Rankings that agree inside classes -/

/-- `r'` orders the items of each class as `r` does. -/
def AgreesOn (κ : Fin n → ι) (r r' : Perm (Fin n)) : Prop :=
  ∀ a b, κ a = κ b → (r' a < r' b ↔ r a < r b)

instance [DecidableEq ι] (κ : Fin n → ι) (r r' : Perm (Fin n)) : Decidable (AgreesOn κ r r') :=
  inferInstanceAs (Decidable (∀ _ _, _))

variable [DecidableEq ι]

/-- The ranks `r` gives to a class. -/
def ranksOf (κ : Fin n → ι) (i : ι) (r : Perm (Fin n)) : Finset (Fin n) :=
  (univ.filter fun a => κ a = i).map r.toEmbedding

theorem apply_mem_ranksOf {κ : Fin n → ι} {i : ι} {a : Fin n} (r : Perm (Fin n))
    (h : κ a = i) : r a ∈ ranksOf κ i r :=
  mem_map_of_mem _ (by simpa using h)

theorem class_symm_of_mem_ranksOf {κ : Fin n → ι} {i : ι} {x : Fin n} {r : Perm (Fin n)}
    (h : x ∈ ranksOf κ i r) : κ (r.symm x) = i := by
  obtain ⟨a, ha, rfl⟩ := mem_map.mp h
  simpa using ha

/-- The order isomorphism between the ranks two rankings give to a class. -/
def rankIso (κ : Fin n → ι) (i : ι) (r π : Perm (Fin n)) : ranksOf κ i r ≃o ranksOf κ i π :=
  ((ranksOf κ i r).orderIsoOfFin (card_map _)).symm.trans
    ((ranksOf κ i π).orderIsoOfFin (card_map _))

/-- Each item goes to the item of its class whose rank under `π` stands where the
item's rank under `r` stands. -/
def rearrange (κ : Fin n → ι) (r π : Perm (Fin n)) (a : Fin n) : Fin n :=
  π.symm (rankIso κ (κ a) r π ⟨r a, apply_mem_ranksOf r rfl⟩)

theorem rearrange_eq {κ : Fin n → ι} {i : ι} {a : Fin n} (r π : Perm (Fin n)) (h : κ a = i) :
    rearrange κ r π a = π.symm (rankIso κ i r π ⟨r a, apply_mem_ranksOf r h⟩) := by
  subst h
  rfl

theorem class_rearrange (κ : Fin n → ι) (r π : Perm (Fin n)) (a : Fin n) :
    κ (rearrange κ r π a) = κ a :=
  class_symm_of_mem_ranksOf (Subtype.prop _)

theorem rearrange_injective (κ : Fin n → ι) (r π : Perm (Fin n)) :
    Function.Injective (rearrange κ r π) := by
  intro a b hab
  have hκ : κ a = κ b := by
    rw [← class_rearrange κ r π a, hab, class_rearrange κ r π b]
  rw [rearrange_eq r π hκ, rearrange_eq r π (rfl : κ b = κ b)] at hab
  have := (rankIso κ (κ b) r π).injective (Subtype.ext (π.symm.injective hab))
  exact r.injective (congrArg Subtype.val this)

/-- Every ranking agrees with `r` on the classes once the items of each class are
rearranged. -/
theorem exists_agreeing (κ : Fin n → ι) (r π : Perm (Fin n)) :
    ∃ σ : Perm (Fin n), κ ∘ σ = κ ∧ AgreesOn κ r (π * σ) := by
  refine ⟨.ofBijective _ (Finite.injective_iff_bijective.mp (rearrange_injective κ r π)),
    funext (class_rearrange κ r π), fun a b hκ => ?_⟩
  have ha := rearrange_eq r π hκ
  have hb := rearrange_eq r π (rfl : κ b = κ b)
  simp only [Perm.coe_mul, Function.comp_apply, ofBijective_apply, ha, hb, apply_symm_apply]
  exact (rankIso κ (κ b) r π).lt_iff_lt

/-- The rankings that agree with one on the classes, times the orders of the classes,
are at least all rankings. -/
theorem factorial_le_agreeing [Fintype ι] (κ : Fin n → ι) (r : Perm (Fin n)) :
    n ! ≤ #(univ.filter fun r' => AgreesOn κ r r') *
      ∏ i, (#(univ.filter fun a => κ a = i)) ! := by
  have hstab : ∏ i, (#(univ.filter fun a => κ a = i)) ! =
      #(univ.filter fun σ : Perm (Fin n) => κ ∘ σ = κ) := by
    rw [← Fintype.card_subtype, DomMulAct.stabilizer_card]
    exact prod_congr rfl fun i _ => by rw [Fintype.card_subtype]
  rw [hstab, ← card_product]
  calc n ! = #(univ : Finset (Perm (Fin n))) := by
        rw [Finset.card_univ, Fintype.card_perm, Fintype.card_fin]
    _ ≤ #(((univ.filter fun r' => AgreesOn κ r r') ×ˢ
          (univ.filter fun σ : Perm (Fin n) => κ ∘ σ = κ)).image fun x => x.1 * x.2⁻¹) := by
        refine card_le_card fun π _ => ?_
        obtain ⟨σ, hσ, hagree⟩ := exists_agreeing κ r π
        exact mem_image.mpr ⟨(π * σ, σ), by simp [hσ, hagree], by simp⟩
    _ ≤ _ := card_image_le

/-! ## Classes joined by edges -/

theorem factorial_mul_factorial_le (a b : ℕ) : (a + 1)! * (b + 1)! ≤ (a + b + 1)! := by
  induction b with
  | zero => simp
  | succ b ih =>
      calc (a + 1)! * (b + 1 + 1)! = (b + 2) * ((a + 1)! * (b + 1)!) := by
            rw [factorial_succ (b + 1), Nat.mul_left_comm]
        _ ≤ (a + b + 2) * (a + b + 1)! := Nat.mul_le_mul (by omega) ih
        _ = (a + (b + 1) + 1)! := (factorial_succ (a + b + 1)).symm

theorem prod_factorial_le {s : Finset ι} {f : ι → ℕ} (hf : ∀ i ∈ s, 0 < f i) :
    ∏ i ∈ s, (f i)! ≤ (∑ i ∈ s, (f i - 1) + 1)! := by
  induction s using Finset.induction_on with
  | empty => simp
  | insert i s hi ih =>
      have hpos : f i - 1 + 1 = f i := Nat.sub_add_cancel (hf i (mem_insert_self i s))
      rw [prod_insert hi, sum_insert hi]
      calc (f i)! * ∏ j ∈ s, (f j)!
          ≤ (f i - 1 + 1)! * (∑ j ∈ s, (f j - 1) + 1)! := by
            rw [hpos]
            exact Nat.mul_le_mul_left _ (ih fun j hj => hf j (mem_insert_of_mem hj))
        _ ≤ _ := factorial_mul_factorial_le _ _

/-- Classes that `m` merges made of `n` single items have at most `(m + 1) !` orders. -/
theorem prod_factorial_classes_le [Fintype ι] {κ : Fin n → ι} {m : ℕ} (h : #(univ.image κ) + m = n) :
    ∏ i, (#(univ.filter fun a => κ a = i))! ≤ (m + 1)! := by
  have hpos : ∀ i ∈ univ.image κ, 0 < #(univ.filter fun a => κ a = i) := by
    intro i hi
    obtain ⟨a, -, rfl⟩ := mem_image.mp hi
    exact card_pos.mpr ⟨a, by simp⟩
  have hsum : ∑ i ∈ univ.image κ, (#(univ.filter fun a => κ a = i) - 1) = m := by
    have hcard := card_eq_sum_card_image κ univ
    rw [Finset.card_univ, Fintype.card_fin] at hcard
    have hone : ∑ i ∈ univ.image κ, (#(univ.filter fun a => κ a = i) - 1) + #(univ.image κ) =
        ∑ i ∈ univ.image κ, #(univ.filter fun a => κ a = i) := by
      rw [card_eq_sum_ones, ← sum_add_distrib]
      exact sum_congr rfl fun i hi => Nat.sub_add_cancel (hpos i hi)
    omega
  rw [← prod_subset (subset_univ (univ.image κ)), ← hsum]
  · exact prod_factorial_le hpos
  · intro i _ hi
    have hempty : univ.filter (fun a => κ a = i) = ∅ :=
      filter_eq_empty_iff.mpr fun a _ ha => hi (mem_image.mpr ⟨a, mem_univ a, ha⟩)
    rw [hempty, card_empty, factorial_zero]

/-- Joining items along edges.  `m` of the edges join two classes; when all of them
do, some heights rise along every edge. -/
theorem exists_classes (edges : List (Fin n × Fin n)) :
    ∃ (κ : Fin n → Fin n) (m : ℕ), m ≤ edges.length ∧ #(univ.image κ) + m = n ∧
      (∀ e ∈ edges, κ e.1 = κ e.2) ∧
      (m = edges.length → ∃ height : Fin n → ℕ, ∀ e ∈ edges, height e.1 < height e.2) := by
  induction edges with
  | nil => exact ⟨id, 0, le_refl 0, by simp, by simp, fun _ => ⟨fun _ => 0, by simp⟩⟩
  | cons e edges ih =>
      obtain ⟨κ, m, hm, hcard, hjoined, hheight⟩ := ih
      by_cases he : κ e.1 = κ e.2
      · refine ⟨κ, m, hm.trans (Nat.le_succ _), hcard, ?_, fun h => ?_⟩
        · simpa [he] using hjoined
        · simp only [List.length_cons] at h
          omega
      · -- the class of `e.2` moves into the class of `e.1`, and above it
        let join : Fin n → Fin n := fun i => if i = κ e.2 then κ e.1 else i
        have himage : univ.image (join ∘ κ) = (univ.image κ).erase (κ e.2) := by
          ext i
          simp only [mem_image, mem_univ, true_and, mem_erase, Function.comp_apply, join]
          constructor
          · rintro ⟨a, rfl⟩
            split
            · exact ⟨he, e.1, rfl⟩
            · rename_i ha
              exact ⟨ha, a, rfl⟩
          · rintro ⟨hi, a, rfl⟩
            exact ⟨a, if_neg hi⟩
        have hmem : κ e.2 ∈ univ.image κ := mem_image_of_mem κ (mem_univ _)
        refine ⟨join ∘ κ, m + 1, Nat.succ_le_succ hm, ?_, ?_, fun h => ?_⟩
        · have := card_pos.mpr ⟨_, hmem⟩
          rw [himage, card_erase_of_mem hmem]
          omega
        · intro e' he'
          rcases List.mem_cons.mp he' with rfl | he'
          · simp [join, he]
          · simp [hjoined e' he']
        · obtain ⟨height, hrise⟩ := hheight (Nat.succ.inj h)
          refine ⟨fun a => if κ a = κ e.2 then height a + height e.1 + 1 else height a, ?_⟩
          intro e' he'
          rcases List.mem_cons.mp he' with rfl | he'
          · simp only [he, if_false, if_true]
            omega
          · have := hrise e' he'
            simp only [hjoined e' he']
            split <;> omega

/-- A ranking that puts lower items first. -/
theorem exists_ranking_of_height (height : Fin n → ℕ) :
    ∃ r : Perm (Fin n), ∀ a b, height a < height b → r a < r b := by
  refine ⟨(Tuple.sort height).symm, fun a b hab => ?_⟩
  by_contra hle
  have := Tuple.monotone_sort height (not_lt.mp hle)
  simp only [Function.comp_apply, apply_symm_apply] at this
  omega

end SimLoop.Foundation
