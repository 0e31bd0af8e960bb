/-
  Explore/Shelter.lean --- when a batch that breaks off is handed out.

  Batches go out in order and stop at the first recorded failure.  Before a batch
  that breaks off is handed out, every failing batch before it was; as many of them
  as there are workers cannot all be running still, so a failure is recorded, and
  the batch stays where it is.  With fewer, the pool may finish the passing batches
  first: the failing ones leave a worker free, and it reaches the batch.
-/
import SimLoop.Explore.Search

set_option autoImplicit false

namespace SimLoop.Explore

open SimLoop.Foundation

variable {outcome : Outcome} {seeds : List Int} {jobs : Nat} {bs : List Batch}

/-! ## What a sheltered search hands out -/

theorem getElem?_of_mem_take {n : Nat} {batch : Batch} (h : batch ∈ bs.take n) :
    ∃ i < n, bs[i]? = some batch := by
  obtain ⟨i, hi⟩ := List.mem_iff_getElem?.mp h
  rw [List.getElem?_take] at hi
  split at hi
  · exact ⟨i, by assumption, hi⟩
  · cases hi

/-- Once a failure is recorded nothing is handed out. -/
theorem failure_of_take {size : Nat} {s : Search}
    (hs : Sound outcome seeds (batches seeds.length size) s) {batch : Batch}
    {frontier : Frontier} (htake : s.frontier.take = some (batch, frontier)) :
    s.frontier.failure = none := by
  by_contra hfailure
  obtain ⟨g, hg⟩ := Option.ne_none_iff_exists'.mp hfailure
  obtain ⟨i, hi, earlier, hearlier, hanswer⟩ := hs.found g hg
  have hnext := (Frontier.take_some htake).1
  rw [hs.batches] at hnext
  have hbefore := stop_le_start hi hearlier hnext
  have hlt := (answer_some hanswer).2.1
  have htakes : s.frontier.take = none := by
    unfold Frontier.take
    rw [hs.batches, hnext, hg]
    simp only [Option.any_some, decide_eq_true_eq]
    rw [if_pos (by omega)]
  rw [htakes] at htake
  cases htake

/-- The failing batches handed out while no failure is recorded are all running. -/
theorem failing_running {s : Search} (hs : Sound outcome seeds bs s) (hnodup : bs.Nodup)
    (hnone : s.frontier.failure = none) :
    ((bs.take s.frontier.next).countP fun b => (firstEnding outcome seeds b).found) ≤
      s.running.length := by
  rw [List.countP_eq_length_filter]
  refine (List.Nodup.subperm ((hnodup.sublist (List.take_sublist _ _)).filter _) ?_).length_le
  intro b hb
  obtain ⟨hmem, hfails⟩ := List.mem_filter.mp hb
  obtain ⟨i, hlt, hi⟩ := getElem?_of_mem_take hmem
  rcases hs.covered i hlt b hi with hrun | ⟨r, hanswer, hrecorded⟩
  · exact hrun
  · rw [← answer_found, hanswer] at hfails
    cases r with
    | none => cases hfails
    | some f =>
        obtain ⟨g, hg, _⟩ := hrecorded f rfl
        rw [hnone] at hg
        cases hg

/-- The batches running will all return. -/
def Steady (outcome : Outcome) (seeds : List Int) (s : Search) : Prop :=
  ∀ batch ∈ s.running, (answer outcome seeds batch).broken = false

namespace Steady

theorem no_raises {s : Search} (h : Steady outcome seeds (s.submitted jobs))
    {rest : List Batch} {e : Raised} : ¬ Search.Raises outcome seeds jobs s rest e := by
  intro raises
  cases raises with
  | @mk before after rest batch e split _ raised _ =>
      have hmem : batch ∈ (s.submitted jobs).running := split.mem_iff.mpr (by simp)
      have hreturns := h batch hmem
      rw [raised] at hreturns
      cases hreturns

/-- A search that waits for nothing but silence has nothing to wait for. -/
theorem not_silent {s : Search} (h : Steady outcome seeds (s.submitted jobs))
    (silent : ∀ b ∈ (s.submitted jobs).running, answer outcome seeds b = .endless) :
    s.Finished jobs := by
  refine List.eq_nil_iff_forall_not_mem.mpr fun b hb => ?_
  have hreturns := h b hb
  rw [silent b hb] at hreturns
  cases hreturns

end Steady

theorem steady_submitted {size : Nat} (hsize : 1 ≤ size)
    (hsheltered : Sheltered outcome seeds jobs (batches seeds.length size)) {s : Search}
    (hs : Sound outcome seeds (batches seeds.length size) s) (h : Steady outcome seeds s) :
    Steady outcome seeds (s.submitted jobs) := by
  refine (fill_induction
    (I := fun s => Sound outcome seeds (batches seeds.length size) s ∧ Steady outcome seeds s)
    ?_ ⟨hs, h⟩).2
  rintro t batch frontier ⟨ht, hsteady⟩ hfree htake
  refine ⟨sound_take ht htake, fun b hb => ?_⟩
  rcases List.mem_append.mp hb with hold | hnew
  · exact hsteady b hold
  obtain rfl := List.mem_singleton.mp hnew
  have hbatch := (Frontier.take_some htake).1
  rw [ht.batches] at hbatch
  have hbusy := failing_running ht (nodup_batches hsize) (failure_of_take ht htake)
  by_contra hbroken
  rw [Bool.not_eq_false, answer_broken] at hbroken
  have hmany := hsheltered _ b hbatch hbroken
  omega

/-- In a sheltered search no batch that breaks off ever runs. -/
theorem steady_of_run {size : Option Nat} (hsize : ∀ n, size = some n → 1 ≤ n)
    (hsheltered : Sheltered outcome seeds jobs
      (batches seeds.length (size.getD (batchSize seeds.length jobs))))
    {finishing : List (List Batch)} {s : Search}
    (run : Run (Search.Round outcome seeds jobs) (.start seeds jobs size) finishing s) :
    Sound outcome seeds (batches seeds.length (size.getD (batchSize seeds.length jobs))) s ∧
      Steady outcome seeds (s.submitted jobs) := by
  have hpos := one_le_size seeds jobs hsize
  have hboth : Sound outcome seeds
      (batches seeds.length (size.getD (batchSize seeds.length jobs))) s ∧
        Steady outcome seeds s := by
    refine run.invariant
      (I := fun s => Sound outcome seeds
        (batches seeds.length (size.getD (batchSize seeds.length jobs))) s ∧
          Steady outcome seeds s)
      ?_ ⟨sound_start size, fun b hb => by cases hb⟩
    rintro u _ v ⟨hu, hsteady⟩ round
    refine ⟨sound_round hu round, ?_⟩
    cases round with
    | mk _ split _ =>
        intro b hb
        refine steady_submitted hpos hsheltered hu hsteady b ?_
        exact split.mem_iff.mpr (List.mem_append_right _ hb)
  exact ⟨hboth.1, steady_submitted hpos hsheltered hboth.1 hboth.2⟩

/-! ## Every search ends in some way -/

/-- A batch that finishes on its own and raises. -/
theorem raises_one {s : Search} {batch : Batch} {rest : List Batch} {e : Raised}
    (split : (s.submitted jobs).running.Perm (batch :: rest))
    (raised : answer outcome seeds batch = .raised e) :
    Search.Raises outcome seeds jobs s rest e :=
  @Search.Raises.mk outcome seeds jobs s [] [] rest batch e split (by simp) raised (by simp)

/-- A batch that finishes on its own and returns. -/
theorem round_one {s : Search} {batch : Batch} (running : batch ∈ (s.submitted jobs).running)
    (answered : (answer outcome seeds batch).broken = false) :
    Search.Round outcome seeds jobs s [batch]
      ⟨Search.recorded outcome seeds (s.submitted jobs).frontier [batch],
        (s.submitted jobs).running.erase batch⟩ :=
  .mk (by simp) (List.perm_cons_erase running) (by simpa using answered)

/-- From every search reached, the call can end; and where a batch that breaks off
is running, it can end without returning. -/
theorem ends_from {pickling : Option Raised} (hpickles : requirePicklable pickling = .returned ())
    {size : Option Nat} (s : Search) :
    ∀ {finishing : List (List Batch)},
      Run (Search.Round outcome seeds jobs) (.start seeds jobs size) finishing s →
      ∃ r, FindLowestFailure pickling outcome seeds jobs size r ∧
        ((∃ b ∈ (s.submitted jobs).running, (answer outcome seeds b).broken = true) →
          r.broken = true) := by
  induction s using (rounds_wellFounded outcome seeds jobs).induction with
  | h s ih =>
  intro finishing run
  by_cases hfin : s.Finished jobs
  · refine ⟨_, .finished hpickles run hfin, ?_⟩
    rintro ⟨b, hb, _⟩
    unfold Search.Finished at hfin
    rw [hfin] at hb
    cases hb
  by_cases hraises : ∃ b ∈ (s.submitted jobs).running, ∃ e, answer outcome seeds b = .raised e
  · -- a result that raises ends the call, now or when the workers are done
    obtain ⟨b, hb, e, he⟩ := hraises
    have raises := raises_one (List.perm_cons_erase hb) he
    by_cases hsilent : ∃ c ∈ (s.submitted jobs).running.erase b,
        answer outcome seeds c = .endless
    · obtain ⟨c, hc, hends⟩ := hsilent
      exact ⟨_, .leaving hpickles run raises hc hends, fun _ => rfl⟩
    · refine ⟨_, .raised hpickles run raises fun c hc hends => hsilent ⟨c, hc, hends⟩,
        fun _ => rfl⟩
  by_cases hreturns : ∃ b ∈ (s.submitted jobs).running,
      (answer outcome seeds b).broken = false
  · -- a batch that returns makes a round, and leaves the others running
    obtain ⟨b, hb, hanswer⟩ := hreturns
    have round := round_one hb hanswer
    obtain ⟨r, hends, hbroken⟩ := ih _ ⟨_, round⟩ (run.snoc round)
    refine ⟨r, hends, ?_⟩
    rintro ⟨c, hc, hc'⟩
    refine hbroken ⟨c, mem_submitted ?_, hc'⟩
    refine (List.mem_erase_of_ne ?_).mpr hc
    rintro rfl
    rw [hanswer] at hc'
    cases hc'
  · refine ⟨_, .waiting hpickles run hfin fun b hb => ?_, fun _ => rfl⟩
    cases hanswer : answer outcome seeds b with
    | endless => rfl
    | raised e => exact absurd ⟨b, hb, e, hanswer⟩ hraises
    | returned r => exact absurd ⟨b, hb, by rw [hanswer]; rfl⟩ hreturns

/-! ## A search that is not sheltered -/

/-- Only batches that pass have finished so far. -/
structure Waiting (outcome : Outcome) (seeds : List Int) (bs : List Batch) (s : Search) :
    Prop where
  batches : s.frontier.batches = bs
  failure : s.frontier.failure = none
  handed : s.running.Subperm (bs.take s.frontier.next)
  kept : ∀ i < s.frontier.next, ∀ batch, bs[i]? = some batch →
    answer outcome seeds batch ≠ .returned none → batch ∈ s.running

theorem waiting_submitted (jobs : Nat) {s : Search} (h : Waiting outcome seeds bs s) :
    Waiting outcome seeds bs (s.submitted jobs) := by
  refine fill_induction ?_ h
  rintro t batch frontier ht _ htake
  obtain ⟨hbatch, rfl⟩ := Frontier.take_some htake
  rw [ht.batches] at hbatch
  refine ⟨ht.batches, ht.failure, ?_, fun i hi b hb hstops => ?_⟩
  · rw [List.take_add_one, hbatch]
    exact ht.handed.append (List.Subperm.refl _)
  · rcases Nat.lt_succ_iff_lt_or_eq.mp hi with hlt | rfl
    · exact List.mem_append_left _ (ht.kept i hlt b hb hstops)
    · obtain rfl := Option.some.inj (hbatch.symm.trans hb)
      simp

/-- While no failure is recorded, batches run out or workers do. -/
theorem waiting_busy {s : Search} (h : Waiting outcome seeds bs s)
    (hnext : (s.submitted jobs).frontier.next < bs.length) :
    jobs ≤ (s.submitted jobs).running.length := by
  by_contra hshort
  have hw := waiting_submitted jobs h
  rcases Frontier.take_none (submitted_take (Nat.lt_of_not_le hshort)) with hend | ⟨_, g, _, hg, _⟩
  · rw [hw.batches] at hend
    exact absurd (List.getElem?_eq_none_iff.mp hend) (by omega)
  · rw [hw.failure] at hg
    cases hg

/-- A batch that passes leaves the others running. -/
theorem Waiting.passed {s : Search} (h : Waiting outcome seeds bs s) {batch : Batch}
    (hpass : answer outcome seeds batch = .returned none) :
    Waiting outcome seeds bs ⟨s.frontier, s.running.erase batch⟩ := by
  refine ⟨h.batches, h.failure, (List.erase_subperm batch _).trans h.handed, ?_⟩
  intro j hj c hc hstops
  refine (List.mem_erase_of_ne ?_).mpr (h.kept j hj c hc hstops)
  rintro rfl
  exact hstops hpass

/-- Workers that are busy, and not all with failing batches, run one that passes. -/
theorem Waiting.passing {s : Search} (h : Waiting outcome seeds bs s)
    (hbusy : jobs ≤ s.running.length) {i : Nat} (hnext : s.frontier.next ≤ i)
    (hfew : ((bs.take i).countP fun b => (answer outcome seeds b).found) < jobs)
    (hreturn : ∀ j < i, ∀ b, bs[j]? = some b → (answer outcome seeds b).broken = false) :
    ∃ b ∈ s.running, answer outcome seeds b = .returned none := by
  have hcount := h.handed.countP_le fun b => (answer outcome seeds b).found
  have hcount' := (List.take_sublist_take_left (l := bs) hnext).countP_le
    (p := fun b => (answer outcome seeds b).found)
  obtain ⟨b, hb, hpasses⟩ : ∃ b ∈ s.running, ¬ (answer outcome seeds b).found = true := by
    by_contra hall
    push Not at hall
    have := List.countP_eq_length.mpr hall
    omega
  refine ⟨b, hb, ?_⟩
  obtain ⟨j, hlt, hj⟩ := getElem?_of_mem_take (h.handed.subset hb)
  have hreturns := hreturn j (by omega) b hj
  cases hanswer : answer outcome seeds b with
  | endless => rw [hanswer] at hreturns; cases hreturns
  | raised e => rw [hanswer] at hreturns; cases hreturns
  | returned r =>
      cases r with
      | none => rfl
      | some f => rw [hanswer] at hpasses; exact absurd rfl hpasses

/-- The first batch that breaks off with too few failing ones before it is handed
out. -/
theorem broken_reached {i : Nat} {batch : Batch} (hbatch : bs[i]? = some batch)
    (hbroken : (answer outcome seeds batch).broken = true)
    (hfew : ((bs.take i).countP fun b => (answer outcome seeds b).found) < jobs)
    (hfirst : ∀ j < i, ∀ b, bs[j]? = some b → (answer outcome seeds b).broken = false)
    (s : Search) : Waiting outcome seeds bs s →
      ∃ finishing t, Run (Search.Round outcome seeds jobs) s finishing t ∧
        batch ∈ (t.submitted jobs).running := by
  induction s using (rounds_wellFounded outcome seeds jobs).induction with
  | h s ih =>
  intro h
  have hw := waiting_submitted jobs h
  have hi := (List.getElem?_eq_some_iff.mp hbatch).1
  rcases Nat.lt_or_ge i (s.submitted jobs).frontier.next with hout | hin
  · refine ⟨_, s, .nil s, hw.kept i hout batch hbatch ?_⟩
    intro hpass
    rw [hpass] at hbroken
    cases hbroken
  -- as long as it waits for a worker, another one passes
  obtain ⟨b, hb, hpass⟩ := hw.passing (waiting_busy h (Nat.lt_of_le_of_lt hin hi)) hin hfew hfirst
  have round := round_one hb (show (answer outcome seeds b).broken = false by rw [hpass]; rfl)
  have hnothing : Search.recorded outcome seeds (s.submitted jobs).frontier [b] =
      (s.submitted jobs).frontier := by
    simp [Search.recorded, hpass, Frontier.record]
  rw [hnothing] at round
  obtain ⟨finishing, t, run, hreached⟩ := ih _ ⟨_, round⟩ (hw.passed hpass)
  exact ⟨_, t, (Run.snoc (.nil s) round).append run, hreached⟩

theorem waiting_start (size : Option Nat) :
    Waiting outcome seeds (batches seeds.length (size.getD (batchSize seeds.length jobs)))
      (.start seeds jobs size) where
  batches := rfl
  failure := rfl
  handed := List.nil_subperm
  kept i hi := absurd hi (Nat.not_lt_zero i)

/-- A search that is not sheltered can come to run a batch that breaks off. -/
theorem broken_reached_of_open (size : Option Nat)
    (hopen : ¬ Sheltered outcome seeds jobs
      (batches seeds.length (size.getD (batchSize seeds.length jobs)))) :
    ∃ t finishing, Run (Search.Round outcome seeds jobs) (.start seeds jobs size) finishing t ∧
      ∃ batch ∈ (t.submitted jobs).running, (answer outcome seeds batch).broken = true := by
  obtain ⟨i, batch, hbatch, hbroken, hfew⟩ : ∃ i batch,
      (batches seeds.length (size.getD (batchSize seeds.length jobs)))[i]? = some batch ∧
        (answer outcome seeds batch).broken = true ∧
        (((batches seeds.length (size.getD (batchSize seeds.length jobs))).take i).countP
          fun b => (answer outcome seeds b).found) < jobs := by
    unfold Sheltered at hopen
    push Not at hopen
    obtain ⟨i, batch, hbatch, hbroken, hfew⟩ := hopen
    refine ⟨i, batch, hbatch, (answer_broken batch).trans hbroken, ?_⟩
    simpa only [answer_found, Nat.not_le] using hfew
  -- among these, the first: what comes before it returns
  induction i using Nat.strongRecOn generalizing batch with
  | ind i ih =>
  by_cases hfirst : ∀ j < i, ∀ b,
      (batches seeds.length (size.getD (batchSize seeds.length jobs)))[j]? = some b →
        (answer outcome seeds b).broken = false
  · obtain ⟨finishing, t, run, hrunning⟩ :=
      broken_reached hbatch hbroken hfew hfirst _ (waiting_start size)
    exact ⟨t, finishing, run, batch, hrunning, hbroken⟩
  · push Not at hfirst
    obtain ⟨j, hj, b, hb, hbreaks⟩ := hfirst
    refine ih j hj b hb ((Bool.not_eq_false _).mp hbreaks) (Nat.lt_of_le_of_lt ?_ hfew)
    exact (List.take_sublist_take_left (Nat.le_of_lt hj)).countP_le

end SimLoop.Explore
