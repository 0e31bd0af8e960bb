/-
  Foundation/Precedence.lean --- which of two members comes first in a list.

  `Precedes l x y` says that `l` has an `x` before a `y`.  A list without
  repetitions is its set of members together with this relation
  (`eq_of_precedes`), so two orders of the same members are compared pair by
  pair.  The second half says what the dictionary operations do to the relation
  on their keys.

  The file names nothing of the simulator.
-/
import SimLoop.Foundation.Dict
import Mathlib.Data.List.Perm.Basic

set_option autoImplicit false

namespace SimLoop.Foundation

universe u v

variable {α : Type u}

/-- `x` comes before `y` in the list. -/
def Precedes (l : List α) (x y : α) : Prop := [x, y].Sublist l

namespace Precedes

variable {l l' : List α} {x y z : α}

instance [DecidableEq α] : Decidable (Precedes l x y) :=
  inferInstanceAs (Decidable ([x, y].Sublist l))

theorem left (h : Precedes l x y) : x ∈ l := h.subset (by simp)

theorem right (h : Precedes l x y) : y ∈ l := h.subset (by simp)

theorem mono (h : Precedes l x y) (hl : l.Sublist l') : Precedes l' x y := h.trans hl

theorem ne (hl : l.Nodup) (h : Precedes l x y) : x ≠ y :=
  List.pairwise_iff_forall_sublist.mp hl h

/-- Without repetitions, not both come first. -/
theorem asymm (hl : l.Nodup) (h : Precedes l x y) : ¬ Precedes l y x := by
  induction l with
  | nil => cases h
  | cons a rest ih =>
      intro h'
      obtain ⟨ha, hrest⟩ := List.nodup_cons.mp hl
      cases h with
      | cons _ h =>
          cases h' with
          | cons _ h' => exact ih hrest h h'
          | cons_cons _ h' => exact ha (Precedes.right h)
      | cons_cons _ h =>
          cases h' with
          | cons _ h' => exact ha (Precedes.right h')
          | cons_cons _ h' => exact ha (List.singleton_sublist.mp h)

theorem concat_iff : Precedes (l ++ [z]) x y ↔ Precedes l x y ∨ x ∈ l ∧ y = z := by
  induction l with
  | nil =>
      constructor
      · intro h
        have := h.length_le
        simp at this
      · rintro (h | ⟨h, _⟩)
        · exact absurd (Precedes.left h) List.not_mem_nil
        · exact absurd h List.not_mem_nil
  | cons a rest ih =>
      constructor
      · intro h
        cases h with
        | cons _ h =>
            rcases ih.mp h with h | ⟨hx, hy⟩
            · exact Or.inl (h.cons a)
            · exact Or.inr ⟨List.mem_cons_of_mem a hx, hy⟩
        | cons_cons _ h =>
            rcases List.mem_append.mp (List.singleton_sublist.mp h) with hy | hy
            · exact Or.inl ((List.singleton_sublist.mpr hy).cons_cons x)
            · exact Or.inr ⟨List.mem_cons_self, List.mem_singleton.mp hy⟩
      · rintro (h | ⟨hx, rfl⟩)
        · exact Precedes.mono h (List.sublist_append_left _ _)
        · exact (List.singleton_sublist.mpr hx).append (List.Sublist.refl [y])

theorem filter_iff {p : α → Bool} :
    Precedes (l.filter p) x y ↔ Precedes l x y ∧ p x = true ∧ p y = true := by
  constructor
  · intro h
    exact ⟨h.mono List.filter_sublist, (List.mem_filter.mp h.left).2,
      (List.mem_filter.mp h.right).2⟩
  · rintro ⟨h, hx, hy⟩
    have hpair : [x, y].filter p = [x, y] := by simp [hx, hy]
    have hfilter := h.filter p
    rw [hpair] at hfilter
    exact hfilter

/-- Where the first occurrences stand decides. -/
theorem of_idxOf_lt [DecidableEq α] (hy : y ∈ l) (h : l.idxOf x < l.idxOf y) :
    Precedes l x y := by
  induction l with
  | nil => cases hy
  | cons a rest ih =>
      have hay : a ≠ y := by
        rintro rfl
        rw [List.idxOf_cons_self] at h
        exact Nat.not_lt_zero _ h
      have hy' : y ∈ rest := (List.mem_cons.mp hy).resolve_left (Ne.symm hay)
      rcases eq_or_ne a x with rfl | hax
      · exact (List.singleton_sublist.mpr hy').cons_cons a
      · rw [List.idxOf_cons_ne _ hax, List.idxOf_cons_ne _ hay] at h
        exact (ih hy' (Nat.lt_of_succ_lt_succ h)).cons a

end Precedes

/-- Two orders of the same members are one order when no pair is turned round. -/
theorem eq_of_precedes {l l' : List α} (hl : l.Nodup) (hp : l.Perm l')
    (h : ∀ x y, Precedes l' x y → Precedes l x y) : l = l' := by
  have hanti : ∀ x y, x ∈ l → y ∈ l' → Precedes l x y → Precedes l y x → x = y := by
    intro x y _ _ hxy hyx
    exact absurd hyx (hxy.asymm hl)
  apply List.Perm.eq_of_pairwise hanti _ _ hp
  · exact List.pairwise_of_forall_sublist fun hxy => hxy
  · exact List.pairwise_of_forall_sublist fun hxy => h _ _ hxy

/-! ## Keys of a dictionary -/

namespace Dict

variable {κ : Type u} {ν : Type v}

/-- A selection of the entries keeps the order of the keys it keeps. -/
theorem precedes_select (d : Dict κ ν) (p : κ × ν → Bool) {x y : κ} (h : Precedes d.keys x y)
    (hx : x ∈ (d.entries.filter p).map Prod.fst) (hy : y ∈ (d.entries.filter p).map Prod.fst) :
    Precedes ((d.entries.filter p).map Prod.fst) x y := by
  -- the entry under a selected key is the selected one
  have hselected : ∀ e ∈ d.entries, e.1 ∈ (d.entries.filter p).map Prod.fst → p e = true := by
    intro e he hin
    obtain ⟨e', he', hkey⟩ := List.mem_map.mp hin
    obtain ⟨hmem, hp⟩ := List.mem_filter.mp he'
    obtain rfl : e' = e := List.inj_on_of_nodup_map d.nodupKeys hmem he hkey
    exact hp
  obtain ⟨pair, hpair, heq⟩ := List.sublist_map_iff.mp h
  obtain ⟨e, tail, rfl, rfl, htail⟩ := List.map_eq_cons_iff.mp heq.symm
  obtain ⟨f, rest, rfl, rfl, hrest⟩ := List.map_eq_cons_iff.mp htail
  obtain rfl := List.map_eq_nil_iff.mp hrest
  have hef : Precedes (d.entries.filter p) e f := Precedes.filter_iff.mpr
    ⟨hpair, hselected e (hpair.subset (by simp)) hx, hselected f (hpair.subset (by simp)) hy⟩
  exact hef.map Prod.fst

variable [DecidableEq κ]

theorem keys_insert (d : Dict κ ν) (k : κ) (v : ν) :
    (d.insert k v).keys = if k ∈ d.keys then d.keys else d.keys ++ [k] :=
  map_fst_setEntry k v d.entries

theorem keys_erase (d : Dict κ ν) (k : κ) :
    (d.erase k).keys = d.keys.filter (fun key => key ≠ k) := by
  unfold keys erase
  rw [List.filter_map]
  rfl

/-- A new key goes last; the order of the others stands. -/
theorem precedes_insert (d : Dict κ ν) (k : κ) (v : ν) (x y : κ) :
    Precedes (d.insert k v).keys x y ↔
      Precedes d.keys x y ∨ x ∈ d.keys ∧ y = k ∧ y ∉ d.keys := by
  rw [keys_insert]
  split
  · rename_i hk
    constructor
    · exact Or.inl
    · rintro (h | ⟨_, rfl, hy⟩)
      · exact h
      · exact absurd hk hy
  · rename_i hk
    rw [Precedes.concat_iff]
    constructor
    · rintro (h | ⟨hx, rfl⟩)
      · exact Or.inl h
      · exact Or.inr ⟨hx, rfl, hk⟩
    · rintro (h | ⟨hx, hy, _⟩)
      · exact Or.inl h
      · exact Or.inr ⟨hx, hy⟩

/-- A removed key is in no pair; the order of the others stands. -/
theorem precedes_erase (d : Dict κ ν) (k x y : κ) :
    Precedes (d.erase k).keys x y ↔ Precedes d.keys x y ∧ x ≠ k ∧ y ≠ k := by
  rw [keys_erase, Precedes.filter_iff]
  simp

end Dict

end SimLoop.Foundation
