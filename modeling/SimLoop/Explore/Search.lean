/-
  Explore/Search.lean --- which completion orders find the least failing seed.

  `Sound` is the loop's invariant: the batches handed out so far are running or
  answered, every answer is matched by a recorded failure at least as early, and
  the recorded failure is the answer of a batch handed out.  It survives a `Round`
  whatever finished, and at a finished search it forces the least failure, because
  batches never handed out start past the recorded one.

  Termination is a measure: a round moves batches from the frontier to the
  workers, which changes nothing, and retires at least one.

  What can go wrong is a batch that breaks off.  Where enough failing batches stand
  before it, all but one worker could be busy with them, so one of them is recorded
  before it is handed out, and it never is.  Where too few do, finishing only
  batches that pass hands it out.
-/
import SimLoop.Explore.Frontier

set_option autoImplicit false

namespace SimLoop.Explore

open SimLoop.Foundation

variable {outcome : Outcome} {seeds : List Int} {jobs : Nat}

/-! ## One batch -/

/-- A batch that returns reports the first seed that does not pass, at its position
in the whole list. -/
theorem runBatch_spec (seeds : List Int) (start : Nat) :
    (∀ f, runBatch outcome start seeds = .returned (some f) →
      ∃ j seed, f.at_ = start + j ∧ seeds[j]? = some seed ∧
        outcome seed = .returned (some ⟨f.excType, f.message⟩) ∧
        ∀ i < j, ∀ s, seeds[i]? = some s → outcome s = .returned none) ∧
    (runBatch outcome start seeds = .returned none →
      ∀ seed ∈ seeds, outcome seed = .returned none) := by
  induction seeds generalizing start with
  | nil =>
      refine ⟨fun f hf => ?_, by simp⟩
      cases hf
  | cons seed rest ih =>
      unfold runBatch
      cases hseed : outcome seed with
      | raised e => simp
      | endless => simp
      | returned failure =>
          cases failure with
          | some e =>
              refine ⟨fun f hf => ?_, by simp⟩
              obtain rfl : (⟨start, e.excType, e.message⟩ : Failure) = f := by simpa using hf
              exact ⟨0, seed, rfl, rfl, hseed, fun i hi => absurd hi (Nat.not_lt_zero i)⟩
          | none =>
              refine ⟨fun f hf => ?_, fun hnone s hs => ?_⟩
              · obtain ⟨j, s, hat, hs, hout, hbefore⟩ := (ih (start + 1)).1 f hf
                refine ⟨j + 1, s, by omega, hs, hout, fun i hi s' hs' => ?_⟩
                cases i with
                | zero => exact Option.some.inj hs' ▸ hseed
                | succ i => exact hbefore i (by omega) s' hs'
              · rcases List.mem_cons.mp hs with rfl | hmem
                · exact hseed
                · exact (ih (start + 1)).2 hnone s hmem

/-- A batch ends the way its first seed that does not pass ends. -/
theorem runBatch_ending (seeds : List Int) (start : Nat) :
    (runBatch outcome start seeds).broken =
        (((seeds.map outcome).find? (· ≠ .returned none)).getD (.returned none)).broken ∧
      (runBatch outcome start seeds).found =
        (((seeds.map outcome).find? (· ≠ .returned none)).getD (.returned none)).found := by
  induction seeds generalizing start with
  | nil => exact ⟨rfl, rfl⟩
  | cons seed rest ih =>
      unfold runBatch
      rw [List.map_cons]
      cases hseed : outcome seed with
      | raised e => exact ⟨rfl, rfl⟩
      | endless => exact ⟨rfl, rfl⟩
      | returned failure =>
          cases failure with
          | some e => exact ⟨rfl, rfl⟩
          | none => exact ih (start + 1)

theorem answer_broken (batch : Batch) :
    (answer outcome seeds batch).broken = (firstEnding outcome seeds batch).broken :=
  (runBatch_ending _ _).1

theorem answer_found (batch : Batch) :
    (answer outcome seeds batch).found = (firstEnding outcome seeds batch).found :=
  (runBatch_ending _ _).2

theorem getElem?_block {batch : Batch} {j : Nat} (hj : j < batch.stop - batch.start) :
    (block seeds batch)[j]? = seeds[batch.start + j]? := by
  unfold block
  rw [List.getElem?_take_of_lt hj, List.getElem?_drop]

/-- What a batch's answer says about the seed list. -/
theorem answer_some {batch : Batch} {f : Failure}
    (h : answer outcome seeds batch = .returned (some f)) :
    batch.start ≤ f.at_ ∧ f.at_ < batch.stop ∧
      (∃ seed, seeds[f.at_]? = some seed ∧
        outcome seed = .returned (some ⟨f.excType, f.message⟩)) ∧
      ∀ j, batch.start ≤ j → j < f.at_ → ∀ seed, seeds[j]? = some seed →
        outcome seed = .returned none := by
  obtain ⟨j, seed, hat, hseed, hout, hbefore⟩ := (runBatch_spec _ _).1 f h
  have hj : j < batch.stop - batch.start := by
    have hlen := (List.getElem?_eq_some_iff.mp hseed).1
    unfold block at hlen
    rw [List.length_take] at hlen
    omega
  rw [getElem?_block hj] at hseed
  refine ⟨by omega, by omega, ⟨seed, hat ▸ hseed, hout⟩, ?_⟩
  intro i hlo hi s hs
  refine hbefore (i - batch.start) (by omega) s ?_
  rw [getElem?_block (by omega), Nat.add_sub_cancel' hlo]
  exact hs

theorem answer_none {batch : Batch} (h : answer outcome seeds batch = .returned none) {j : Nat}
    (hlo : batch.start ≤ j) (hhi : j < batch.stop) {seed : Int}
    (hseed : seeds[j]? = some seed) : outcome seed = .returned none := by
  refine (runBatch_spec _ _).2 h seed (List.mem_of_getElem? (i := j - batch.start) ?_)
  rw [getElem?_block (by omega), Nat.add_sub_cancel' hlo]
  exact hseed

/-! ## The batches -/

theorem getElem?_batches {total size i : Nat} {batch : Batch}
    (h : (batches total size)[i]? = some batch) :
    batch.start = i * size ∧ batch.stop = min (i * size + size) total := by
  unfold batches at h
  rw [List.getElem?_map, Option.map_eq_some_iff] at h
  obtain ⟨k, hk, rfl⟩ := h
  obtain ⟨_, rfl⟩ := List.getElem?_eq_some_iff.mp hk
  simp

/-- Every position of the seed list is in the batch its index divides to. -/
theorem batch_of_position {total size j : Nat} (hsize : 1 ≤ size) (hj : j < total) :
    ∃ batch, (batches total size)[j / size]? = some batch ∧
      batch.start ≤ j ∧ j < batch.stop := by
  have hlow := Nat.div_mul_le_self j size
  have hhigh := Nat.lt_div_mul_add (a := j) hsize
  have hcount : j / size < (total + size - 1) / size := by
    rw [Nat.lt_div_iff_mul_lt hsize]
    omega
  refine ⟨⟨j / size * size, min (j / size * size + size) total⟩, ?_, hlow, ?_⟩
  · unfold batches
    rw [List.getElem?_map, List.getElem?_range hcount]
    rfl
  · show j < min (j / size * size + size) total
    omega

/-- Batches stand in ascending order. -/
theorem stop_le_start {total size i j : Nat} (hij : i < j) {batch later : Batch}
    (hi : (batches total size)[i]? = some batch) (hj : (batches total size)[j]? = some later) :
    batch.stop ≤ later.start := by
  have hstop := (getElem?_batches hi).2
  have hstart := (getElem?_batches hj).1
  have hmul := Nat.mul_le_mul_right size hij
  rw [Nat.succ_mul] at hmul
  omega

theorem nodup_batches {total size : Nat} (hsize : 1 ≤ size) : (batches total size).Nodup := by
  unfold batches
  refine List.Nodup.map (fun i j h => ?_) List.nodup_range
  exact Nat.eq_of_mul_eq_mul_right hsize (congrArg Batch.start h)

/-! ## The frontier -/

namespace Frontier

theorem take_some {f f' : Frontier} {batch : Batch} (h : f.take = some (batch, f')) :
    f.batches[f.next]? = some batch ∧ f' = { f with next := f.next + 1 } := by
  unfold take at h
  split at h
  · cases h
  · rename_i b hb
    split at h
    · cases h
    · obtain ⟨rfl, rfl⟩ := Prod.mk.inj (Option.some.inj h)
      exact ⟨hb, rfl⟩

theorem take_none {f : Frontier} (h : f.take = none) :
    f.batches[f.next]? = none ∨
      ∃ batch g, f.batches[f.next]? = some batch ∧ f.failure = some g ∧
        g.at_ < batch.start := by
  unfold take at h
  split at h
  · exact Or.inl (by assumption)
  · rename_i batch hbatch
    split at h
    · rename_i hfail
      cases hg : f.failure with
      | none => simp [hg] at hfail
      | some g => exact Or.inr ⟨batch, g, hbatch, rfl, by simpa [hg] using hfail⟩
    · cases h

@[simp] theorem record_batches (f : Frontier) (r : Option Failure) :
    (f.record r).batches = f.batches ∧ (f.record r).next = f.next := by
  unfold record
  split
  · exact ⟨rfl, rfl⟩
  · split
    · exact ⟨rfl, rfl⟩
    · split <;> exact ⟨rfl, rfl⟩

/-- The recorded failure afterwards is the old one or the new one, and no later
than either. -/
theorem record_failure (f : Frontier) (r : Option Failure) :
    ((f.record r).failure = f.failure ∨ (f.record r).failure = r) ∧
      (∀ g, f.failure = some g → ∃ g', (f.record r).failure = some g' ∧ g'.at_ ≤ g.at_) ∧
      (∀ g, r = some g → ∃ g', (f.record r).failure = some g' ∧ g'.at_ ≤ g.at_) := by
  unfold record
  cases r with
  | none => exact ⟨Or.inl rfl, fun g hg => ⟨g, hg, Nat.le_refl _⟩, by simp⟩
  | some new =>
      cases hf : f.failure with
      | none => exact ⟨Or.inr rfl, by simp, by simp⟩
      | some old =>
          by_cases hlt : new.at_ < old.at_
          · simp only [hlt, if_true, Option.some.injEq]
            exact ⟨Or.inr trivial, by rintro g rfl; exact ⟨new, rfl, by omega⟩,
              by rintro g rfl; exact ⟨new, rfl, Nat.le_refl _⟩⟩
          · simp only [hlt, if_false, hf, Option.some.injEq]
            exact ⟨Or.inl trivial, by rintro g rfl; exact ⟨old, rfl, Nat.le_refl _⟩,
              by rintro g rfl; exact ⟨old, rfl, by omega⟩⟩

end Frontier

/-! ## The invariant of the loop -/

/-- `bs` is the list of batches the search started with. -/
structure Sound (outcome : Outcome) (seeds : List Int) (bs : List Batch) (s : Search) : Prop where
  batches : s.frontier.batches = bs
  /-- every batch handed out is running or answered no earlier than the record -/
  covered : ∀ i < s.frontier.next, ∀ batch, bs[i]? = some batch →
    batch ∈ s.running ∨ ∃ r, answer outcome seeds batch = .returned r ∧
      ∀ f, r = some f → ∃ g, s.frontier.failure = some g ∧ g.at_ ≤ f.at_
  /-- the record is the answer of a batch handed out -/
  found : ∀ g, s.frontier.failure = some g → ∃ i < s.frontier.next, ∃ batch,
    bs[i]? = some batch ∧ answer outcome seeds batch = .returned (some g)
  running : ∀ batch ∈ s.running, ∃ i < s.frontier.next, bs[i]? = some batch

theorem sound_start (size : Option Nat) :
    Sound outcome seeds (batches seeds.length (size.getD (batchSize seeds.length jobs)))
      (.start seeds jobs size) where
  batches := rfl
  covered := by intro i hi; exact absurd hi (Nat.not_lt_zero i)
  found := by intro g hg; cases hg
  running := by intro batch hb; cases hb

/-- Handing out one batch. -/
theorem sound_take {bs : List Batch} {s : Search} (h : Sound outcome seeds bs s)
    {batch : Batch} {frontier : Frontier} (htake : s.frontier.take = some (batch, frontier)) :
    Sound outcome seeds bs ⟨frontier, s.running ++ [batch]⟩ := by
  obtain ⟨hbatch, rfl⟩ := Frontier.take_some htake
  rw [h.batches] at hbatch
  refine ⟨h.batches, ?_, ?_, ?_⟩
  · intro i hi b hb
    rcases Nat.lt_succ_iff_lt_or_eq.mp hi with hlt | rfl
    · exact (h.covered i hlt b hb).imp (List.mem_append_left _) id
    · obtain rfl := Option.some.inj (hbatch.symm.trans hb)
      exact Or.inl (by simp)
  · intro g hg
    obtain ⟨i, hi, hwhich⟩ := h.found g hg
    exact ⟨i, Nat.lt_succ_of_lt hi, hwhich⟩
  · intro b hb
    rcases List.mem_append.mp hb with hold | hnew
    · obtain ⟨i, hi, hwhich⟩ := h.running b hold
      exact ⟨i, Nat.lt_succ_of_lt hi, hwhich⟩
    · rw [List.mem_singleton.mp hnew]
      exact ⟨s.frontier.next, Nat.lt_succ_self _, hbatch⟩

/-- What handing out one batch keeps, handing out several keeps. -/
theorem fill_induction {I : Search → Prop} {jobs : Nat}
    (htake : ∀ (s : Search) batch frontier, I s → s.running.length < jobs →
      s.frontier.take = some (batch, frontier) → I ⟨frontier, s.running ++ [batch]⟩)
    {s : Search} (h : I s) : I (s.submitted jobs) := by
  suffices hfill : ∀ free (s : Search), free = jobs - s.running.length → I s →
      I (.fill free s) from hfill _ s rfl h
  intro free
  induction free with
  | zero => exact fun s _ hs => hs
  | succ free ih =>
      intro s hfree hs
      unfold Search.fill
      split
      · exact hs
      · rename_i batch frontier hbatch
        refine ih ⟨frontier, s.running ++ [batch]⟩ ?_ (htake s batch frontier hs (by omega) hbatch)
        simp only [List.length_append, List.length_singleton]
        omega

/-- Handing out batches leaves those that run running. -/
theorem mem_submitted {s : Search} {batch : Batch} (h : batch ∈ s.running) :
    batch ∈ (s.submitted jobs).running :=
  fill_induction (I := fun t => batch ∈ t.running)
    (fun _ _ _ ht _ _ => List.mem_append_left _ ht) h

/-- Handing out batches keeps the invariant. -/
theorem sound_submitted {bs : List Batch} (jobs : Nat) {s : Search} (h : Sound outcome seeds bs s) :
    Sound outcome seeds bs (s.submitted jobs) :=
  fill_induction (fun _ _ _ hs _ htake => sound_take hs htake) h

/-- Recording the answers of finished batches, in any order. -/
theorem sound_record {bs : List Batch} (done : List Batch) {f : Frontier} {rest : List Batch}
    (answered : ∀ batch ∈ done, (answer outcome seeds batch).broken = false)
    (h : Sound outcome seeds bs ⟨f, done ++ rest⟩) :
    Sound outcome seeds bs ⟨Search.recorded outcome seeds f done, rest⟩ := by
  induction done generalizing f with
  | nil => exact h
  | cons batch done ih =>
      unfold Search.recorded
      rw [List.foldl_cons]
      refine ih (fun b hb => answered b (List.mem_cons_of_mem _ hb)) ?_
      cases hanswer : answer outcome seeds batch with
      | raised e =>
          have hbroken := answered batch List.mem_cons_self
          rw [hanswer] at hbroken
          cases hbroken
      | endless =>
          have hbroken := answered batch List.mem_cons_self
          rw [hanswer] at hbroken
          cases hbroken
      | returned r =>
          dsimp only
          obtain ⟨hwhich, hkeep, hnew⟩ := Frontier.record_failure f r
          obtain ⟨hbs, hnext⟩ := Frontier.record_batches f r
          refine ⟨hbs.trans h.batches, ?_, ?_, ?_⟩
          · intro i hi b hb
            rw [hnext] at hi
            rcases h.covered i hi b hb with hrun | ⟨r', hans, hle⟩
            · rcases List.mem_cons.mp hrun with rfl | hlater
              · exact Or.inr ⟨r, hanswer, hnew⟩
              · exact Or.inl hlater
            · refine Or.inr ⟨r', hans, fun g hg => ?_⟩
              obtain ⟨old, hold, hat⟩ := hle g hg
              obtain ⟨g', hg', hat'⟩ := hkeep old hold
              exact ⟨g', hg', Nat.le_trans hat' hat⟩
          · intro g hg
            rw [hnext]
            rcases hwhich with hsame | hthis
            · exact h.found g (hsame.symm.trans hg)
            · obtain ⟨i, hi, hb⟩ := h.running batch List.mem_cons_self
              obtain rfl : r = some g := hthis.symm.trans hg
              exact ⟨i, hi, batch, hb, hanswer⟩
          · intro b hb
            rw [hnext]
            exact h.running b (List.mem_cons_of_mem _ hb)

theorem sound_round {bs : List Batch} {s t : Search} {done : List Batch}
    (h : Sound outcome seeds bs s) (round : Search.Round outcome seeds jobs s done t) :
    Sound outcome seeds bs t := by
  cases round with
  | mk _ split answered =>
      have hfill := sound_submitted jobs h
      refine sound_record _ answered ⟨hfill.batches, ?_, hfill.found, ?_⟩
      · intro i hi b hb
        exact (hfill.covered i hi b hb).imp split.mem_iff.mp id
      · intro b hb
        exact hfill.running b (split.mem_iff.mpr hb)

/-! ## Termination -/

/-- Batches still to be answered: not handed out yet, or running. -/
def outstanding (s : Search) : Nat :=
  s.frontier.batches.length - s.frontier.next + s.running.length

theorem outstanding_submitted (jobs : Nat) (s : Search) : outstanding (s.submitted jobs) = outstanding s := by
  refine fill_induction (I := fun t => outstanding t = outstanding s) ?_ rfl
  intro t batch frontier ht _ htake
  obtain ⟨hbatch, rfl⟩ := Frontier.take_some htake
  have hlt := (List.getElem?_eq_some_iff.mp hbatch).1
  rw [← ht]
  simp only [outstanding, List.length_append, List.length_singleton]
  omega

@[simp] theorem recorded_batches (done : List Batch) (f : Frontier) :
    (Search.recorded outcome seeds f done).batches = f.batches ∧
      (Search.recorded outcome seeds f done).next = f.next := by
  induction done generalizing f with
  | nil => exact ⟨rfl, rfl⟩
  | cons batch done ih =>
      unfold Search.recorded at ih ⊢
      rw [List.foldl_cons, (ih _).1, (ih _).2]
      split
      · exact Frontier.record_batches f _
      · exact ⟨rfl, rfl⟩

theorem outstanding_round {s t : Search} {done : List Batch}
    (round : Search.Round outcome seeds jobs s done t) : outstanding t < outstanding s := by
  cases round with
  | @mk rest some_done split _ =>
      have hsubmitted := outstanding_submitted jobs s
      have hlen := split.length_eq
      have hdone := List.length_pos_iff.mpr some_done
      unfold outstanding at *
      rw [(recorded_batches _ _).1, (recorded_batches _ _).2]
      rw [List.length_append] at hlen
      dsimp only
      omega

/-- No search runs rounds forever. -/
theorem rounds_wellFounded (outcome : Outcome) (seeds : List Int) (jobs : Nat) :
    WellFounded fun t s : Search => ∃ done, Search.Round outcome seeds jobs s done t :=
  Subrelation.wf (fun ⟨_, round⟩ => outstanding_round round) (measure outstanding).wf

/-! ## What a finished search returns -/

/-- Workers stay free only when the frontier has nothing for them. -/
theorem take_of_fill_short {free : Nat} {s : Search}
    (hshort : (Search.fill free s).running.length < s.running.length + free) :
    (Search.fill free s).frontier.take = none := by
  induction free generalizing s with
  | zero => exact absurd hshort (Nat.lt_irrefl _)
  | succ free ih =>
      unfold Search.fill at hshort ⊢
      split at hshort
      · rename_i hnone
        simp only [hnone]
      · rename_i batch frontier htake
        refine ih ?_
        simp only [List.length_append, List.length_singleton]
        omega

theorem submitted_take {s : Search} (hshort : (s.submitted jobs).running.length < jobs) :
    (s.submitted jobs).frontier.take = none := by
  refine take_of_fill_short ?_
  unfold Search.submitted at hshort
  omega

theorem finished_take {s : Search} (hjobs : 1 ≤ jobs) (h : s.Finished jobs) :
    (s.submitted jobs).frontier.take = none := by
  refine submitted_take ?_
  unfold Search.Finished at h
  rw [h]
  exact hjobs

/-- The sizes the search can be run with. -/
theorem one_le_size (seeds : List Int) (jobs : Nat) {size : Option Nat}
    (hsize : ∀ n, size = some n → 1 ≤ n) :
    1 ≤ size.getD (batchSize seeds.length jobs) := by
  cases size with
  | none => exact Nat.le_max_left _ _
  | some n => exact hsize n rfl

/-- **Every finished search returns the first seed that does not pass.** -/
theorem first_of_finished {size : Option Nat} (hjobs : 1 ≤ jobs)
    (hsize : ∀ n, size = some n → 1 ≤ n) {s : Search}
    (hs : Sound outcome seeds (batches seeds.length (size.getD (batchSize seeds.length jobs))) s)
    (h : s.Finished jobs) : IsFirstStop outcome seeds (s.result jobs) := by
  have hpos := one_le_size seeds jobs hsize
  have hsub := sound_submitted jobs hs
  have htake := finished_take hjobs h
  -- A position that does not pass lies in a batch whose answer the record is no
  -- later than, or the record is earlier than the whole batch.
  have key : ∀ j seed, seeds[j]? = some seed → outcome seed ≠ .returned none →
      ∃ g, s.result jobs = some g ∧ g.at_ ≤ j := by
    intro j seed hseed hstops
    have hj := (List.getElem?_eq_some_iff.mp hseed).1
    obtain ⟨batch, hbatch, hlo, hhi⟩ := batch_of_position hpos hj
    rcases Nat.lt_or_ge (j / size.getD (batchSize seeds.length jobs))
      (s.submitted jobs).frontier.next with hout | hin
    · rcases hsub.covered _ hout batch hbatch with hrun | ⟨r, hanswer, hans⟩
      · have : batch ∈ (s.submitted jobs).running := hrun
        rw [h] at this
        cases this
      · cases r with
        | none => exact absurd (answer_none hanswer hlo hhi hseed) hstops
        | some f =>
            obtain ⟨g, hg, hle⟩ := hans f rfl
            refine ⟨g, hg, Nat.le_trans hle ?_⟩
            by_contra hlate
            exact hstops ((answer_some hanswer).2.2.2 j hlo (by omega) seed hseed)
    · rcases Frontier.take_none htake with hend | ⟨first, g, hfirst, hg, hlt⟩
      · have hcount := (List.getElem?_eq_some_iff.mp hbatch).1
        rw [← hsub.batches] at hcount
        have := List.getElem?_eq_none_iff.mp hend
        omega
      · refine ⟨g, hg, ?_⟩
        rw [hsub.batches] at hfirst
        rw [(getElem?_batches hfirst).1] at hlt
        have := Nat.mul_le_mul_right (size.getD (batchSize seeds.length jobs)) hin
        have := Nat.div_mul_le_self j (size.getD (batchSize seeds.length jobs))
        omega
  cases hres : s.result jobs with
  | none =>
      intro seed hmem
      obtain ⟨j, hj⟩ := List.mem_iff_getElem?.mp hmem
      by_contra hstops
      obtain ⟨g, hg, _⟩ := key j seed hj hstops
      rw [hres] at hg
      cases hg
  | some f =>
      obtain ⟨_, _, batch, _, hanswer⟩ := hsub.found f hres
      obtain ⟨_, _, hwhere, _⟩ := answer_some hanswer
      refine ⟨hwhere, fun j hj seed hseed => ?_⟩
      by_contra hstops
      obtain ⟨g, hg, hle⟩ := key j seed hseed hstops
      obtain rfl := Option.some.inj (hres.symm.trans hg)
      omega

end SimLoop.Explore
