/-
  Shrink/Granularity.lean --- why delta debugging ends, and what it asks on the way.

  The loop of `_ddmin` is taken one turn at a time.  Whatever the answers, a turn leaves
  fewer positions or a finer granularity, and no more chunks than there are positions,
  so that some `n * (n + 2)` turns end it from `n` positions.  For the granularity the
  chunks have to be counted: cut into no more chunks than there are positions, none is
  empty, so that dropping one of them leaves at least one position for each other.
-/
import SimLoop.Shrink.Passes

set_option autoImplicit false

namespace SimLoop.Shrink

open SimLoop.Foundation

/-! ## Cutting into chunks -/

/-- `index * len(items) // count`, where chunk `index` begins. -/
def cut (items : List Nat) (count index : Nat) : Nat := index * items.length / count

theorem cut_le {items : List Nat} {count index : Nat} (h : index ≤ count) :
    cut items count index ≤ items.length :=
  Nat.div_le_of_le_mul (Nat.mul_le_mul_right _ h)

theorem cut_mono (items : List Nat) (count index : Nat) :
    cut items count index ≤ cut items count (index + 1) :=
  Nat.div_le_div_right (Nat.mul_le_mul_right _ (Nat.le_succ index))

/-- Where there are no more chunks than items, every chunk reaches beyond the one before. -/
theorem cut_lt {items : List Nat} {count : Nat} (hcount : 1 ≤ count)
    (hle : count ≤ items.length) (index : Nat) :
    cut items count index < cut items count (index + 1) := by
  have hstep : index * items.length + count ≤ (index + 1) * items.length := by
    rw [Nat.succ_mul]
    exact Nat.add_le_add_left hle _
  have hdiv := Nat.div_le_div_right (c := count) hstep
  rw [Nat.add_div_right _ hcount] at hdiv
  exact hdiv

theorem slice_ne_nil {items : List Nat} {lo hi : Nat} (hlt : lo < hi) (hhi : hi ≤ items.length) :
    slice items lo hi ≠ [] := by
  apply List.ne_nil_of_length_pos
  unfold slice
  rw [List.length_drop, List.length_take]
  omega

theorem take_append_slice (items : List Nat) {lo hi : Nat} (h : lo ≤ hi) :
    items.take lo ++ slice items lo hi = items.take hi := by
  have hlo : items.take lo = (items.take hi).take lo := by
    rw [List.take_take, Nat.min_eq_left h]
  rw [hlo]
  exact List.take_append_drop lo (items.take hi)

/-- The first chunks, one after another, are the items up to where the next begins. -/
theorem flatten_slices (items : List Nat) (count n : Nat) :
    ((List.range n).map fun index =>
      slice items (cut items count index) (cut items count (index + 1))).flatten =
        items.take (cut items count n) := by
  induction n with
  | zero =>
    rw [cut, Nat.zero_mul, Nat.zero_div]
    rfl
  | succ n ih =>
    rw [List.range_succ, List.map_append, List.flatten_append, ih]
    simp only [List.map_cons, List.map_nil, List.flatten_cons, List.flatten_nil, List.append_nil]
    exact take_append_slice items (cut_mono items count n)

theorem flatten_split (items : List Nat) {count : Nat} (hcount : 1 ≤ count) :
    (split items count).flatten = items := by
  have hall : cut items count count = items.length := Nat.mul_div_cancel_left _ hcount
  have hflat := flatten_slices items count count
  rw [hall, List.take_length] at hflat
  refine Eq.trans ?_ hflat
  exact List.flatten_filter_ne_nil

theorem length_split {items : List Nat} {count : Nat} (hcount : 1 ≤ count)
    (hle : count ≤ items.length) : (split items count).length = count := by
  unfold split
  rw [List.filter_eq_self.mpr, List.length_map, List.length_range]
  intro chunk hchunk
  obtain ⟨index, hindex, rfl⟩ := List.mem_map.mp hchunk
  exact decide_eq_true (slice_ne_nil (cut_lt hcount hle index)
    (cut_le (Nat.succ_le_of_lt (List.mem_range.mp hindex))))

/-! ## Dropping one chunk -/

/-- Next to a chunk, each other chunk holds a position. -/
theorem length_add_le_flatten {chunks : List (List Nat)} {chunk : List Nat}
    (hne : ∀ chunk ∈ chunks, chunk ≠ []) (h : chunk ∈ chunks) :
    chunk.length + (chunks.length - 1) ≤ chunks.flatten.length := by
  have hcount : ∀ chunks : List (List Nat), (∀ chunk ∈ chunks, chunk ≠ []) →
      chunks.length ≤ chunks.flatten.length := by
    intro chunks hne
    induction chunks with
    | nil => exact Nat.le_refl 0
    | cons first rest ih =>
      have hfirst := List.length_pos_of_ne_nil (hne first List.mem_cons_self)
      have hrest := ih fun chunk hmem => hne chunk (List.mem_cons_of_mem _ hmem)
      rw [List.flatten_cons, List.length_append, List.length_cons]
      omega
  induction chunks with
  | nil => cases h
  | cons first rest ih =>
    have hothers : ∀ chunk ∈ rest, chunk ≠ [] := fun chunk hmem =>
      hne chunk (List.mem_cons_of_mem _ hmem)
    rw [List.flatten_cons, List.length_append, List.length_cons]
    rcases List.mem_cons.mp h with rfl | hrest
    · have := hcount rest hothers
      omega
    · have hfirst := List.length_pos_of_ne_nil (hne first List.mem_cons_self)
      have := ih hothers hrest
      have := List.length_pos_of_mem hrest
      omega

/-- What is left of distinct positions without a part of them. -/
theorem length_filter_notMem {kept chunk : List Nat} (hnodup : kept.Nodup)
    (h : chunk.Sublist kept) :
    (kept.filter fun step => step ∉ chunk).length + chunk.length = kept.length := by
  have hperm : (kept.filter fun step => step ∈ chunk).Perm chunk := by
    refine (List.perm_ext_iff_of_nodup (hnodup.filter _) (hnodup.sublist h)).mpr fun step => ?_
    rw [List.mem_filter, decide_eq_true_eq]
    exact ⟨fun hmem => hmem.2, fun hmem => ⟨h.subset hmem, hmem⟩⟩
  have hparts := List.length_eq_length_filter_add (l := kept) fun step => decide (step ∈ chunk)
  rw [hperm.length_eq] at hparts
  simp only [← decide_not] at hparts
  omega

/-- A complement keeps a position for each chunk but the dropped one. -/
theorem le_length_of_mem_complements {kept rest : List Nat} {granularity : Nat}
    (hnodup : kept.Nodup) (hgran : 1 ≤ granularity) (hle : granularity ≤ kept.length)
    (h : rest ∈ complements kept (split kept granularity)) : granularity - 1 ≤ rest.length := by
  obtain ⟨-, chunk, hchunk, rfl⟩ := mem_complements_iff.mp h
  have hothers := length_add_le_flatten (fun chunk hmem => (mem_split_iff.mp hmem).1) hchunk
  rw [flatten_split kept hgran, length_split hgran hle] at hothers
  have hparts := length_filter_notMem hnodup (sublist_of_mem_split hchunk)
  omega

/-! ## One turn of the loop -/

section

variable (recorded : List Int) (length : Nat)

/-- One turn of the loop of `_ddmin`: what is kept and the granularity at the next top, or
nothing where the loop is left. -/
def ddminTurn (kept : List Nat) (granularity : Nat) :
    Probing (List Int) (Option (List Nat × Nat)) :=
  (Probing.firstAccepted (candidate recorded length) (split kept granularity)).bind fun chunk =>
    match chunk with
    | some chunk => .done (some (chunk.1, 2))
    | none =>
      (if granularity > 2 then
        firstFailingComplement recorded length kept (split kept granularity)
      else .done none).bind fun rest =>
        match rest with
        | some rest => .done (some (rest.1, max (granularity - 1) 2))
        | none =>
          if granularity ≥ kept.length then .done none
          else .done (some (kept, min (granularity * 2) kept.length))

/-- The loop of `_ddmin`, given up with nothing after so many turns. -/
def ddminTurns : Nat → List Nat → Nat → Probing (List Int) (Option (List Nat))
  | 0, _, _ => .done none
  | fuel + 1, kept, granularity =>
    if 1 < kept.length then
      (ddminTurn recorded length kept granularity).bind fun next =>
        match next with
        | some (kept, granularity) => ddminTurns fuel kept granularity
        | none => .done (some kept)
    else .done (some kept)

/-- What can be kept, and at which granularity, at the top of the loop, whatever the probe
has answered so far. -/
inductive Top (positions : List Nat) : List Nat → Nat → Prop
  | start : Top positions positions 2
  | turn {kept kept' : List Nat} {granularity granularity' : Nat} {answers : List (List Int × Bool)}
      (top : Top positions kept granularity) (hkept : 1 < kept.length)
      (h : (ddminTurn recorded length kept granularity).Transcript answers
        (some (kept', granularity'))) : Top positions kept' granularity'

/-- What a turn asks about: something that is left of what is kept. -/
def Asks (kept : List Nat) (choices : List Int) : Prop :=
  ∃ part, part ≠ [] ∧ part ⊆ kept ∧ choices = candidate recorded length part

/-- Where a turn leads. -/
inductive Turned (kept : List Nat) (granularity : Nat) : Option (List Nat × Nat) → Prop
  | chunk {chunk : List Nat} (h : chunk ∈ split kept granularity) :
      Turned kept granularity (some (chunk, 2))
  | rest {rest : List Nat} (hfine : 2 < granularity)
      (h : rest ∈ complements kept (split kept granularity)) :
      Turned kept granularity (some (rest, max (granularity - 1) 2))
  | over (h : kept.length ≤ granularity) : Turned kept granularity none
  | finer (h : granularity < kept.length) :
      Turned kept granularity (some (kept, min (granularity * 2) kept.length))

theorem spec_ddminTurn (kept : List Nat) (granularity : Nat) :
    (ddminTurn recorded length kept granularity).Spec (Asks recorded length kept)
      (Turned kept granularity) := by
  have hchunks : ∀ chunk ∈ split kept granularity,
      Asks recorded length kept (candidate recorded length chunk) := fun chunk hchunk =>
    ⟨chunk, (mem_split_iff.mp hchunk).1, (sublist_of_mem_split hchunk).subset, rfl⟩
  refine (Probing.spec_firstAccepted _ hchunks).bind ?_
  rintro (_ | ⟨chunk, hchunk⟩) -
  · have hlast : (if granularity ≥ kept.length then .done none
        else .done (some (kept, min (granularity * 2) kept.length)) :
          Probing (List Int) (Option (List Nat × Nat))).Spec (Asks recorded length kept)
            (Turned kept granularity) := by
      split
      · exact .over ‹_›
      · exact .finer (Nat.lt_of_not_le ‹_›)
    dsimp only
    split
    · rename_i hfine
      refine (Probing.spec_firstAccepted _ fun rest hrest => ?_).bind ?_
      · obtain ⟨hne, chunk, -, rfl⟩ := mem_complements_iff.mp hrest
        exact ⟨_, hne, fun step hstep => List.mem_of_mem_filter hstep, rfl⟩
      · rintro (_ | ⟨rest, hrest⟩) -
        · exact hlast
        · exact .rest hfine hrest
    · exact hlast
  · exact .chunk hchunk

/-! ## The loop ends -/

/-- The loop, taken turn by turn, is over before the turns are: each turn leaves fewer
positions, or as many at a finer granularity. -/
theorem ddminTurns_eq (kept : List Nat) (granularity : Nat) (hgran : 2 ≤ granularity) (fuel : Nat)
    (hfuel : kept.length * (kept.length + 1) + (kept.length - granularity) < fuel) :
    ddminTurns recorded length fuel kept granularity =
      (ddminLoop recorded length kept granularity hgran).map some := by
  fun_induction ddminLoop recorded length kept granularity hgran generalizing fuel with
  | case1 kept granularity hgran hkept ihchunk ihrest ihfiner =>
    cases fuel with
    | zero => omega
    | succ fuel =>
      rw [ddminTurns, if_pos hkept, ddminTurn, Probing.map, Probing.bind_assoc,
        Probing.bind_assoc]
      refine congrArg _ (funext fun chunk => ?_)
      rcases chunk with _ | ⟨chunk, hchunk⟩
      · dsimp only
        rw [Probing.bind_assoc, Probing.bind_assoc]
        refine congrArg _ (funext fun rest => ?_)
        rcases rest with _ | ⟨rest, hrest⟩
        · dsimp only
          split
          · rfl
          · exact ihfiner ‹_› fuel (by omega)
        · have hlt := length_lt_of_mem_complements hrest
          have hsub := Nat.sub_le rest.length (max (granularity - 1) 2)
          exact ihrest rest hrest fuel (by nlinarith only [hlt, hsub, hfuel])
      · have hlt := length_lt_of_mem_split hgran hkept hchunk
        have hsub := Nat.sub_le chunk.length 2
        exact ihchunk chunk hchunk fuel (by nlinarith only [hlt, hsub, hfuel])
  | case2 kept granularity hgran hkept =>
    cases fuel with
    | zero => omega
    | succ fuel =>
      rw [ddminTurns, if_neg hkept]
      rfl

/-! ## What is kept -/

variable {recorded length}

/-- At the top of the loop distinct positions are kept, and while there are several, no fewer
than the granularity. -/
theorem Top.bounded {positions kept : List Nat} {granularity : Nat}
    (top : Top recorded length positions kept granularity) (hpositions : positions.Nodup) :
    2 ≤ granularity ∧ kept.Nodup ∧ (1 < kept.length → granularity ≤ kept.length) := by
  induction top with
  | start => exact ⟨Nat.le_refl 2, hpositions, fun h => h⟩
  | @turn kept kept' granularity granularity' answers top hkept h ih =>
    obtain ⟨hgran, hnodup, hle⟩ := ih
    have hturned := (h.spec (spec_ddminTurn recorded length kept granularity)).2
    cases hturned with
    | chunk hchunk =>
      exact ⟨Nat.le_refl 2, hnodup.sublist (sublist_of_mem_split hchunk), fun h => h⟩
    | rest hfine hrest =>
      have hleft := le_length_of_mem_complements hnodup (Nat.le_of_succ_le hgran) (hle hkept) hrest
      obtain ⟨-, chunk, -, rfl⟩ := mem_complements_iff.mp hrest
      exact ⟨le_max_right _ _, hnodup.filter _, fun hseveral => max_le hleft hseveral⟩
    | finer hlt => exact ⟨by omega, hnodup, fun _ => Nat.min_le_right _ _⟩

/-- What the loop ends with was kept all along, or got a yes on the way. -/
theorem ddminLoop_accepted {kept : List Nat} {granularity : Nat} (hgran : 2 ≤ granularity)
    {answers : List (List Int × Bool)} {result : List Nat}
    (h : (ddminLoop recorded length kept granularity hgran).Transcript answers result) :
    result = kept ∨ (candidate recorded length result, true) ∈ answers := by
  fun_induction ddminLoop recorded length kept granularity hgran generalizing answers with
  | case1 kept granularity hgran hkept ihchunk ihrest ihfiner =>
    obtain ⟨chunk, chunks, others, rfl, hchunks, hothers⟩ := Probing.Transcript.of_bind h
    rcases chunk with _ | ⟨chunk, hchunk⟩
    · obtain ⟨rest, rests, later, rfl, hrests, hlater⟩ := Probing.Transcript.of_bind hothers
      rcases rest with _ | ⟨rest, hrest⟩
      · dsimp only at hlater
        split at hlater
        · cases hlater
          exact Or.inl rfl
        · refine (ihfiner ‹_› hlater).imp_right fun hmem => ?_
          exact List.mem_append_right _ (List.mem_append_right _ hmem)
      · right
        split at hrests
        · rcases ihrest rest hrest hlater with rfl | hmem
          · exact List.mem_append_right _ (List.mem_append_left _ hrests.accepted)
          · exact List.mem_append_right _ (List.mem_append_right _ hmem)
        · cases hrests
    · right
      rcases ihchunk chunk hchunk hothers with rfl | hmem
      · exact List.mem_append_left _ hchunks.accepted
      · exact List.mem_append_right _ hmem
  | case2 kept granularity hgran hkept =>
    cases h
    exact Or.inl rfl

end

/-- **Delta debugging ends, and asks about parts of what it keeps.**  However the probe
answers, from `n` positions the loop is left within `n * (n + 2) + 1` turns; a turn asks
about non-empty parts of what is kept; chunks are cut as many as asked for, none empty and
nothing lost; the granularity stays within what is kept; and the result is what was given
or was answered with a yes. -/
theorem ddmin_ends (recorded : List Int) (length : Nat) (positions : List Nat) :
    (∀ fuel, positions.length * (positions.length + 2) < fuel →
      ddminTurns recorded length fuel positions 2 =
        (ddmin recorded length positions).map some) ∧
    (∀ kept granularity, Top recorded length positions kept granularity →
      ∀ answers next, (ddminTurn recorded length kept granularity).Transcript answers next →
        ∀ choices answer, (choices, answer) ∈ answers →
          ∃ part, part ≠ [] ∧ part ⊆ kept ∧ choices = candidate recorded length part) ∧
    (∀ items count, 1 ≤ count → count ≤ items.length →
      (split items count).length = count ∧ (∀ chunk ∈ split items count, chunk ≠ []) ∧
        (split items count).flatten = items) ∧
    (positions.Nodup → ∀ kept granularity, Top recorded length positions kept granularity →
      1 < kept.length → granularity ≤ kept.length) ∧
    (∀ answers result, (ddmin recorded length positions).Transcript answers result →
      result = positions ∨ (candidate recorded length result, true) ∈ answers) := by
  refine ⟨fun fuel hfuel => ?_, fun kept granularity _ answers next h => ?_,
    fun items count hcount hle => ⟨length_split hcount hle, fun chunk hmem => ?_,
      flatten_split items hcount⟩,
    fun hnodup kept granularity top => (top.bounded hnodup).2.2,
    fun answers result h => ddminLoop_accepted (Nat.le_refl 2) h⟩
  · have hsub := Nat.sub_le positions.length 2
    exact ddminTurns_eq recorded length positions 2 (Nat.le_refl 2) fuel
      (by linarith only [hsub, hfuel])
  · exact (h.spec (spec_ddminTurn recorded length kept granularity)).1
  · exact (mem_split_iff.mp hmem).1

theorem ddmin_ends_three :
    ddminTurns [1, 0, 2] 3 16 [0, 1, 2] 2 = (ddmin [1, 0, 2] 3 [0, 1, 2]).map some ∧
      (split [0, 1, 2] 2).flatten = [0, 1, 2] ∧ (split [0, 1, 2] 2).length = 2 := by
  obtain ⟨hends, -, hsplit, -⟩ := ddmin_ends [1, 0, 2] 3 [0, 1, 2]
  obtain ⟨hlength, -, hflat⟩ := hsplit [0, 1, 2] 2 (by decide) (by decide)
  exact ⟨hends 16 (by decide), hflat, hlength⟩

end SimLoop.Shrink
