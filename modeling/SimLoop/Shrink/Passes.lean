/-
  Shrink/Passes.lean --- the reduction passes of `shrink_schedule` (`_shrink.py`).

  A pass is a `Probing` (`Foundation/Probing.lean`): what it asks and what it does with
  the answer, apart from who answers.  That it is one shows that it ends whatever the
  probe answers.
-/
import SimLoop.Foundation.Probing
import Mathlib.Data.List.Range
import Mathlib.Tactic.Linarith

set_option autoImplicit false

namespace SimLoop.Shrink

open SimLoop.Foundation

/-! ## Candidates -/

/-- `_candidate`: recorded choices at `kept`, FIFO elsewhere. -/
def candidate (recorded : List Int) (length : Nat) (kept : List Nat) : List Int :=
  kept.foldl (fun choices step => choices.set step (recorded.getD step 0))
    (List.replicate length 0)

/-! ## The two binary searches -/

/-- The loop of `_shortest_prefix`. -/
def shortestPrefixLoop (recorded : List Int) (lo hi : Nat) : Probing (List Int) Nat :=
  if lo < hi then
    let mid := (lo + hi) / 2
    .ask (recorded.take mid) fun accepted =>
      if accepted then shortestPrefixLoop recorded lo mid
      else shortestPrefixLoop recorded (mid + 1) hi
  else .done hi
termination_by hi - lo

/-- `_shortest_prefix`. -/
def shortestPrefix (recorded : List Int) : Probing (List Int) Nat :=
  shortestPrefixLoop recorded 0 recorded.length

/-- `range(lo, hi)`. -/
def steps (lo hi : Nat) : List Nat := List.range' lo (hi - lo)

theorem mem_steps {lo hi step : Nat} : step ∈ steps lo hi ↔ lo ≤ step ∧ step < hi := by
  simp only [steps, List.mem_range'_1]
  omega

/-- The loop of `_fifo_prefix`. -/
def fifoPrefixLoop (recorded : List Int) (length lo hi : Nat) : Probing (List Int) Nat :=
  if lo < hi then
    let mid := (lo + hi + 1) / 2
    .ask (candidate recorded length (steps mid length)) fun accepted =>
      if accepted then fifoPrefixLoop recorded length mid hi
      else fifoPrefixLoop recorded length lo (mid - 1)
  else .done lo
termination_by hi - lo

/-- `_fifo_prefix`. -/
def fifoPrefix (recorded : List Int) (length : Nat) : Probing (List Int) Nat :=
  fifoPrefixLoop recorded length 0 length

/-! ## Delta debugging -/

/-- `items[lo:hi]`. -/
def slice (items : List Nat) (lo hi : Nat) : List Nat := (items.take hi).drop lo

/-- `_split`. -/
def split (items : List Nat) (count : Nat) : List (List Nat) :=
  ((List.range count).map fun index =>
    slice items (index * items.length / count) ((index + 1) * items.length / count)).filter
      fun chunk => chunk ≠ []

/-- What is left of `kept` without each chunk, where something is. -/
def complements (kept : List Nat) (chunks : List (List Nat)) : List (List Nat) :=
  (chunks.map fun chunk => kept.filter fun step => step ∉ chunk).filter fun rest => rest ≠ []

/-- `_first_failing_complement`. -/
def firstFailingComplement (recorded : List Int) (length : Nat) (kept : List Nat)
    (chunks : List (List Nat)) :
    Probing (List Int) (Option { rest // rest ∈ complements kept chunks }) :=
  .firstAccepted (candidate recorded length) (complements kept chunks)

theorem length_slice_le (items : List Nat) (lo hi : Nat) : (slice items lo hi).length ≤ hi - lo := by
  unfold slice
  rw [List.length_drop, List.length_take]
  omega

theorem mem_split_iff {items chunk : List Nat} {count : Nat} :
    chunk ∈ split items count ↔ chunk ≠ [] ∧ ∃ index < count,
      chunk = slice items (index * items.length / count) ((index + 1) * items.length / count) := by
  unfold split
  simp only [ne_eq, decide_not, List.mem_filter, List.mem_map, List.mem_range, Bool.not_eq_eq_eq_not,
    Bool.not_true, decide_eq_false_iff_not]
  constructor
  · rintro ⟨⟨index, hindex, rfl⟩, hne⟩
    exact ⟨hne, index, hindex, rfl⟩
  · rintro ⟨hne, index, hindex, rfl⟩
    exact ⟨⟨index, hindex, rfl⟩, hne⟩

theorem sublist_of_mem_split {items chunk : List Nat} {count : Nat}
    (h : chunk ∈ split items count) : chunk.Sublist items := by
  obtain ⟨_, _, _, rfl⟩ := mem_split_iff.mp h
  exact (List.drop_sublist _ _).trans (List.take_sublist _ _)

/-- One of at least two chunks of at least two positions is not all of them. -/
theorem length_lt_of_mem_split {items chunk : List Nat} {count : Nat} (hcount : 2 ≤ count)
    (hitems : 1 < items.length) (h : chunk ∈ split items count) : chunk.length < items.length := by
  obtain ⟨_, index, _, rfl⟩ := mem_split_iff.mp h
  refine lt_of_le_of_lt (length_slice_le _ _ _) ?_
  -- The chunk's ends are floors of two multiples of `items.length` one apart.
  have hhi : (index + 1) * items.length / count * count ≤ (index + 1) * items.length :=
    Nat.div_mul_le_self _ _
  have hlo : index * items.length < (index * items.length / count + 1) * count :=
    Nat.lt_mul_of_div_lt (Nat.lt_succ_self _) (by omega)
  by_contra hbig
  generalize (index + 1) * items.length / count = top at hhi hbig
  generalize index * items.length / count = bottom at hlo hbig
  have hmul : (bottom + items.length) * count ≤ top * count :=
    Nat.mul_le_mul_right count (by omega)
  have hprod : items.length + count ≤ items.length * count := by nlinarith
  nlinarith

theorem mem_complements_iff {kept rest : List Nat} {chunks : List (List Nat)} :
    rest ∈ complements kept chunks ↔
      rest ≠ [] ∧ ∃ chunk ∈ chunks, rest = kept.filter fun step => step ∉ chunk := by
  unfold complements
  simp only [List.mem_filter, List.mem_map]
  constructor
  · rintro ⟨⟨chunk, hchunk, rfl⟩, hne⟩
    exact ⟨of_decide_eq_true hne, chunk, hchunk, rfl⟩
  · rintro ⟨hne, chunk, hchunk, rfl⟩
    exact ⟨⟨chunk, hchunk, rfl⟩, decide_eq_true hne⟩

theorem length_lt_of_mem_complements {kept rest : List Nat} {count : Nat}
    (h : rest ∈ complements kept (split kept count)) : rest.length < kept.length := by
  obtain ⟨_, chunk, hchunk, rfl⟩ := mem_complements_iff.mp h
  obtain ⟨step, hstep⟩ := List.exists_mem_of_ne_nil _ (mem_split_iff.mp hchunk).1
  apply List.length_filter_lt_length_iff_exists.mpr
  exact ⟨step, (sublist_of_mem_split hchunk).subset hstep, by simpa using hstep⟩

/-- The loop of `_ddmin`. -/
def ddminLoop (recorded : List Int) (length : Nat) (kept : List Nat) (granularity : Nat)
    (hgran : 2 ≤ granularity) : Probing (List Int) (List Nat) :=
  if hkept : 1 < kept.length then
    (Probing.firstAccepted (candidate recorded length) (split kept granularity)).bind fun chunk =>
      match chunk with
      | some ⟨chunk, hchunk⟩ =>
        have := length_lt_of_mem_split hgran hkept hchunk
        ddminLoop recorded length chunk 2 (le_refl 2)
      | none =>
        -- At granularity 2 the complements are the chunks just ruled out.
        (if granularity > 2 then
          firstFailingComplement recorded length kept (split kept granularity)
        else .done none).bind fun rest =>
          match rest with
          | some ⟨rest, hrest⟩ =>
            have := length_lt_of_mem_complements hrest
            ddminLoop recorded length rest (max (granularity - 1) 2) (le_max_right _ _)
          | none =>
            if hfine : granularity ≥ kept.length then .done kept
            else ddminLoop recorded length kept (min (granularity * 2) kept.length)
              (by omega)
  else .done kept
termination_by (kept.length, kept.length - granularity)

/-- `_ddmin`. -/
def ddmin (recorded : List Int) (length : Nat) (positions : List Nat) :
    Probing (List Int) (List Nat) :=
  ddminLoop recorded length positions 2 (le_refl 2)

end SimLoop.Shrink
